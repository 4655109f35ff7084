import Pom68k.Disk.Archive
import Pom68k.Foundation.Overwrite
import Pom68k.Foundation.Scan

/-! # Chunks

A snapshot is a row of chunks, each with a tag and a length. A chunk is opened before the size
of its body is known and its length is patched when it is closed; in between further chunks may
be opened and closed.
-/

namespace Pom68k.Disk

open Foundation

abbrev Tag := Block 4

/-- `Chunk::Chunk`, with the place of the length. -/
def openChunk (out : List Byte) (tag : Tag) : List Byte × Nat :=
  (out ++ tag.1 ++ List.replicate 4 0#8, (out ++ tag.1).length)

/-- `Chunk::~Chunk`. -/
def closeChunk (out : List Byte) (lenAt : Nat) : List Byte :=
  overwrite out lenAt (putBytes 4 (BitVec.ofNat 32 (out.length - lenAt - 4)))

/-- What is written between the opening and the closing of a chunk. -/
inductive Content where
  | done
  | bytes (data : List Byte) (next : Content)
  | chunk (tag : Tag) (body next : Content)

/-- A chunk without its patch. -/
def chunkBytes (tag : Tag) (body : List Byte) : List Byte :=
  tag.1 ++ (putBytes 4 (BitVec.ofNat 32 body.length) ++ body)

namespace Content

/-- The writes in their order. -/
def write : Content → List Byte → List Byte
  | done, out => out
  | bytes data next, out => next.write (out ++ data)
  | chunk tag body next, out =>
    let (opened, lenAt) := openChunk out tag
    next.write (closeChunk (body.write opened) lenAt)

/-- The bytes of a content by themselves. -/
def body : Content → List Byte
  | done => []
  | bytes data next => data ++ next.body
  | chunk tag inner next => chunkBytes tag inner.body ++ next.body

end Content

/-- The patch goes to the length of its own chunk. -/
theorem closeChunk_opened (out : List Byte) (tag : Tag) (body : List Byte) :
    closeChunk ((openChunk out tag).1 ++ body) (openChunk out tag).2 =
      out ++ chunkBytes tag body := by
  have length : ((openChunk out tag).1 ++ body).length - (openChunk out tag).2 - 4 =
      body.length := by
    simp only [openChunk, List.length_append, List.length_replicate]
    omega
  have size : (putBytes 4 (BitVec.ofNat 32 body.length)).length =
      (List.replicate 4 0#8).length := length_putBytes _ _
  rw [closeChunk, length, openChunk, List.append_assoc, overwrite_middle size, chunkBytes,
    List.append_assoc]

theorem Content.write_eq (content : Content) (out : List Byte) :
    content.write out = out ++ content.body := by
  induction content generalizing out with
  | done => exact (List.append_nil out).symm
  | bytes data next ih => rw [write, ih, body, List.append_assoc]
  | chunk tag inner next inner_ih ih =>
    have opened := closeChunk_opened out tag inner.body
    rw [← inner_ih] at opened
    rw [write]
    dsimp only
    rw [opened, ih, body, List.append_assoc]

/-- Chunks one behind the other. -/
def writeChunks : List (Tag × Content) → List Byte → List Byte
  | [], out => out
  | (tag, content) :: rest, out => writeChunks rest ((Content.chunk tag content .done).write out)

/-! ## The reader -/

structure ChunkView where
  tag : List Byte
  data : Nat
  len : Nat

/-- `nextChunk`, with the cursor behind the chunk. -/
def nextChunk (input : List Byte) (cur : Nat) : Scan (Option (ChunkView × Nat)) :=
  if input.length < cur + 8 then pure none
  else do
    let tag ← Scan.range input cur 4
    let len := (getBytes 32 (← Scan.range input (cur + 4) 4)).toNat
    if input.length - cur - 8 < len then pure none
    else pure (some (⟨tag, cur + 8, len⟩, cur + 8 + len))

/-- The tags and bodies of the chunks from the cursor on, and where the cursor stops. -/
def chunks (input : List Byte) : Nat → Nat → Scan (List (List Byte × List Byte) × Nat)
  | 0, _ => .error .endless
  | fuel + 1, cur => do
    match ← nextChunk input cur with
    | none => pure ([], cur)
    | some (view, next) =>
      let body ← Scan.range input view.data view.len
      let (rest, last) ← chunks input fuel next
      pure ((view.tag, body) :: rest, last)

/-- A chunk behind the cursor ends behind it and inside the input. -/
theorem nextChunk_inside (input : List Byte) (cur : Nat) :
    ∃ found, nextChunk input cur = .ok found ∧ ∀ view next, found = some (view, next) →
      cur < view.data ∧ view.data + view.len = next ∧ next ≤ input.length := by
  rw [nextChunk]
  split
  case isTrue => exact ⟨none, rfl, fun _ _ never => by cases never⟩
  case isFalse room =>
    rw [Scan.range_of (by omega), Scan.range_of (by omega)]
    simp only [Scan.ok_bind]
    split
    case isTrue => exact ⟨none, rfl, fun _ _ never => by cases never⟩
    case isFalse whole =>
      refine ⟨_, rfl, ?_⟩
      rintro view next ⟨⟩
      exact ⟨Nat.lt_add_of_pos_right (by decide), rfl, by omega⟩

theorem chunks_end (input : List Byte) {fuel cur : Nat} (enough : input.length - cur < fuel) :
    ∃ found, chunks input fuel cur = .ok found := by
  induction fuel generalizing cur with
  | zero => omega
  | succ fuel ih =>
    obtain ⟨found, read, inside⟩ := nextChunk_inside input cur
    rw [chunks, read, Scan.ok_bind]
    match found with
    | none => exact ⟨_, rfl⟩
    | some (view, next) =>
      obtain ⟨forward, ends, within⟩ := inside view next rfl
      obtain ⟨rest, ended⟩ := ih (by omega : input.length - next < fuel)
      dsimp only
      rw [Scan.range_of (by omega), ended]
      exact ⟨_, rfl⟩

/-- A chunk that was written is the next one. -/
theorem nextChunk_chunkBytes (front : List Byte) (tag : Tag) {body : List Byte} (rest : List Byte)
    (short : body.length < 2 ^ 32) :
    nextChunk (front ++ (chunkBytes tag body ++ rest)) front.length =
      .ok (some (⟨tag.1, front.length + 8, body.length⟩, front.length + 8 + body.length)) := by
  have size : (front ++ (chunkBytes tag body ++ rest)).length =
      front.length + 8 + body.length + rest.length := by
    simp only [chunkBytes, List.length_append, length_putBytes]
    omega
  have first : (front ++ (chunkBytes tag body ++ rest)).drop front.length =
      tag.1 ++ (putBytes 4 (BitVec.ofNat 32 body.length) ++ (body ++ rest)) := by
    rw [List.drop_left, chunkBytes, List.append_assoc, List.append_assoc]
  have second : (front ++ (chunkBytes tag body ++ rest)).drop (front.length + 4) =
      putBytes 4 (BitVec.ofNat 32 body.length) ++ (body ++ rest) := by
    rw [← List.drop_drop, first, List.drop_left' tag.2]
  have length : (getBytes 32 (putBytes 4 (BitVec.ofNat 32 body.length))).toNat = body.length := by
    rw [getBytes_putBytes _ (by decide), BitVec.toNat_ofNat, Nat.mod_eq_of_lt short]
  rw [nextChunk, if_neg (by omega), Scan.range_of (by omega), Scan.range_of (by omega), first,
    second, List.take_left' tag.2, List.take_left' (length_putBytes _ _)]
  simp only [Scan.ok_bind, length]
  rw [if_neg (by omega)]
  rfl

theorem writeChunks_eq (pairs : List (Tag × Content)) (out : List Byte) :
    writeChunks pairs out = out ++ pairs.flatMap fun pair => chunkBytes pair.1 pair.2.body := by
  induction pairs generalizing out with
  | nil => exact (List.append_nil out).symm
  | cons pair rest ih =>
    rw [writeChunks, ih, Content.write_eq, List.flatMap_cons, Content.body, Content.body,
      List.append_nil, List.append_assoc]

theorem chunks_written (pairs : List (Tag × Content)) (front : List Byte) {fuel : Nat}
    (short : ∀ pair ∈ pairs, pair.2.body.length < 2 ^ 32)
    (enough : (writeChunks pairs front).length - front.length < fuel) :
    chunks (writeChunks pairs front) fuel front.length =
      .ok (pairs.map fun pair => (pair.1.1, pair.2.body), (writeChunks pairs front).length) := by
  induction pairs generalizing front fuel with
  | nil =>
    obtain ⟨fuel, rfl⟩ := Nat.exists_eq_succ_of_ne_zero (Nat.ne_zero_of_lt enough)
    have none : nextChunk front front.length = .ok none := if_pos (by omega)
    rw [writeChunks, chunks, none]
    rfl
  | cons pair rest ih =>
    obtain ⟨fuel, rfl⟩ := Nat.exists_eq_succ_of_ne_zero (Nat.ne_zero_of_lt enough)
    obtain ⟨tag, content⟩ := pair
    have here : content.body.length < 2 ^ 32 := short (tag, content) List.mem_cons_self
    have written : (Content.chunk tag content .done).write front =
        front ++ chunkBytes tag content.body := by
      rw [Content.write_eq, Content.body, Content.body, List.append_nil]
    have behind : (front ++ chunkBytes tag content.body).length =
        front.length + 8 + content.body.length := by
      simp only [chunkBytes, List.length_append, length_putBytes]
      omega
    obtain ⟨more, input⟩ : ∃ more, writeChunks rest (front ++ chunkBytes tag content.body) =
        front ++ (chunkBytes tag content.body ++ more) :=
      ⟨_, by rw [writeChunks_eq, List.append_assoc]⟩
    have size := congrArg List.length input
    rw [← List.append_assoc, List.length_append] at size
    rw [writeChunks, written] at enough ⊢
    have later := @ih (front ++ chunkBytes tag content.body) fuel
      (List.forall_mem_cons.mp short).2 (by omega)
    have body : ((front ++ (chunkBytes tag content.body ++ more)).drop (front.length + 8)).take
        content.body.length = content.body := by
      have head : (front ++ (tag.1 ++ putBytes 4 (BitVec.ofNat 32 content.body.length))).length =
          front.length + 8 := by
        simp only [List.length_append, length_putBytes, tag.2]
      have parts : front ++ (chunkBytes tag content.body ++ more) =
          (front ++ (tag.1 ++ putBytes 4 (BitVec.ofNat 32 content.body.length))) ++
            (content.body ++ more) := by
        simp only [chunkBytes, List.append_assoc]
      rw [parts, List.drop_left' head, List.take_left]
    rw [chunks, input, nextChunk_chunkBytes front tag more here, Scan.ok_bind, ← input]
    dsimp only
    rw [Scan.range_of (by omega), ← behind, later, input, body]
    rfl

/-- Chunks with any bodies below 2 ^ 32 bytes, with further chunks in them, are read back in
their order, up to the end of what was written. On any input the reader goes forward or stops,
and shows nothing outside. -/
theorem chunks_read_back :
    (∀ (pairs : List (Tag × Content)) (front : List Byte),
      (∀ pair ∈ pairs, pair.2.body.length < 2 ^ 32) →
      chunks (writeChunks pairs front) ((writeChunks pairs front).length + 1) front.length =
        .ok (pairs.map fun pair => (pair.1.1, pair.2.body), (writeChunks pairs front).length)) ∧
      ∀ (input : List Byte) (cur : Nat),
        (∃ found, chunks input (input.length + 1) cur = .ok found) ∧
        ∃ found, nextChunk input cur = .ok found ∧ ∀ view next, found = some (view, next) →
          cur < view.data ∧ view.data + view.len = next ∧ next ≤ input.length := by
  refine ⟨fun pairs front short => ?_, fun input cur => ⟨?_, nextChunk_inside input cur⟩⟩
  · exact chunks_written pairs front short (Nat.lt_succ_of_le (Nat.sub_le _ _))
  · exact chunks_end input (Nat.lt_succ_of_le (Nat.sub_le _ _))

/-- A chunk within a chunk. -/
theorem chunks_read_back_nested :
    ∃ input, chunks input (input.length + 1) 0 =
      .ok ([(List.replicate 4 1#8, chunkBytes ⟨List.replicate 4 2#8, rfl⟩ [])], input.length) :=
  ⟨_, chunks_read_back.1
    [(⟨List.replicate 4 1#8, rfl⟩, .chunk ⟨List.replicate 4 2#8, rfl⟩ .done .done)] []
    fun pair inside => by
      obtain rfl := List.mem_singleton.mp inside
      decide⟩

end Pom68k.Disk
