import Pom68k.Afp.Commands
import Pom68k.Afp.Histories
import Pom68k.Foundation.Paging

/-! # Folders listed in pages

A guest lists a folder with one request after the other, each time from the index it last asked
for plus the number of entries it was given. While the folder stays as it is, the replies are the
pages of its visible names, and the guest has every entry it wants once exactly if these come
before all others.
-/

namespace Pom68k.Afp

open Foundation Program

/-- The host does what it is asked. -/
def World.Willing (w : World) : Prop := ∀ n, (w.oracle n).refuses = false

theorem Still.of_reached {w w' : World} (reached : Relation.ReflTransGen Still w w') :
    Still w w' := by
  induction reached with
  | refl => exact refl w
  | tail _ last ih => exact ih.trans last

theorem Still.willing {w w' : World} (still : Still w w') (willing : w.Willing) : w'.Willing := by
  rwa [World.Willing, still.oracle]

variable {names : List Name}

section Looking

variable {w w' : World} {v v' : Volume} {rel : Path}

theorem Volume.listing_congr (same : v'.SameTree v) (names : List Name) :
    v'.listing names = v.listing names := by
  simp only [Volume.listing, same.2]

/-- What is told of an object. -/
def Volume.told (v : Volume) (rel : Path) (mtime : Int) : Option NodeInfo :=
  (v.look rel.names).map (nodeInfo rel mtime ((v.metadata (spotOf rel)).bind adParse))

theorem Volume.told_congr (same : v'.SameTree v) (named : rel ≠ []) (mtime : Int) :
    v'.told rel mtime = v.told rel mtime := by
  simp only [Volume.told, spotOf, if_neg named, Volume.metadata, Volume.look_congr same]

theorem outcome_of_willing (willing : w.Willing) (op : HostOp) :
    w.outcome op = (w.vol.apply w.answer op).1 := by
  have accepts : w.answer.refuses = false := willing _
  simp only [World.outcome, accepts, Bool.false_eq_true, ↓reduceIte]

variable {R : CatalogError → World → Prop}

theorem wp_adRead (willing : w.Willing) (spot : Spot) :
    wp (adRead spot) (fun ad w' => ad = (w.vol.metadata spot).bind adParse ∧ Still w w') R w := by
  have still : Still w (w.did (.read spot)) := by
    apply Still.did
    intro answer
    cases spot <;> exact ⟨rfl, rfl⟩
  have result := outcome_of_willing willing (.read spot)
  rw [adRead, wp_bind, wp_get, wp_bind, wp_perform, result]
  cases spot with
  | beside =>
    cases beside : w.vol.beside with
    | none =>
      simp only [Volume.apply, beside]
      exact ⟨by rw [Volume.metadata, beside]; rfl, still⟩
    | some data =>
      simp only [Volume.apply, beside]
      exact ⟨rfl, still⟩
  | under names =>
    cases found : w.vol.look names with
    | none =>
      simp only [Volume.apply, found]
      exact ⟨by rw [Volume.metadata, found]; rfl, still⟩
    | some node =>
      simp only [Volume.apply, found, Option.any_some]
      cases data : node.data with
      | none =>
        simp only [Node.isDir, data]
        refine ⟨?_, still⟩
        rw [Volume.metadata, found, Option.bind_some, data]
        rfl
      | some data =>
        simp only [Node.isDir, data]
        exact ⟨rfl, still⟩

theorem wp_statNode (willing : w.Willing) (named : rel ≠ []) :
    wp (statNode rel) (fun ni w' => ni = w.vol.told rel w.answer.mtime ∧ Still w w') R w := by
  have still : Still w (w.did (.look rel.names)) := Still.did fun _ => ⟨rfl, rfl⟩
  have result := outcome_of_willing willing (.look rel.names)
  rw [statNode, wp_bind, wp_get, wp_bind, wp_perform, result]
  cases found : w.vol.look rel.names with
  | none =>
    simp only [Volume.apply, found]
    exact ⟨by rw [Volume.told, found]; rfl, still⟩
  | some node =>
    simp only [Volume.apply, found, Option.isSome_some, ↓reduceIte]
    rw [wp_bind]
    refine wp_mono (wp_adRead (still.willing willing) _) ?_
    rintro ad w' ⟨rfl, later⟩
    refine ⟨?_, still.trans later⟩
    simp only [Volume.told, found, Option.map_some, spotOf, if_neg named, Volume.metadata,
      Volume.look_congr still.tree]

theorem still_idForPath (w : World) (rel : Path) :
    wp (idForPath rel) (fun _ w' => Still w w') (fun _ _ => True) w :=
  wp_mono (steps_idForPath.keeps (fun _ _ => (lasts_still w).tend) (.refl w))
    (fun _ _ last => last.1) fun _ _ _ => trivial

theorem still_list (names : List Name) : Still w (w.did (.list names)) :=
  Still.did fun _ => ⟨rfl, rfl⟩

theorem wp_listNames (willing : w.Willing) (folder : (w.vol.look names).any Node.isDir = true) :
    wp (listNames names) (fun found w' => found = w.vol.listing names ∧ Still w w') R w := by
  have result := outcome_of_willing willing (.list names)
  rw [listNames, wp_bind, wp_get, wp_bind, wp_perform, result]
  simp only [Volume.apply, folder]
  exact ⟨rfl, still_list names⟩

theorem wp_packParams {ni : NodeInfo} (id parent bitmap : Nat) (asDir : Bool) :
    wp (packParams ni id parent bitmap asDir)
      (fun p w' => (∃ offspring, p = packBytes ni id parent offspring bitmap asDir) ∧ Still w w')
      R w := by
  rw [packParams]
  split
  · rw [wp_bind, dirOffspring, wp_bind, wp_get, wp_bind, wp_perform]
    split <;> exact ⟨⟨_, rfl⟩, still_list _⟩
  · exact ⟨⟨_, rfl⟩, Still.refl w⟩

end Looking

/-! ## Entries -/

/-- What a guest asks for: a folder, the parameters it wants of files and of folders, and how many
entries and how much data it takes at once. -/
structure Enumeration where
  did : BitVec 32
  path : Bytes
  fbm : BitVec 16
  dbm : BitVec 16
  reqcnt : BitVec 16
  maxsz : BitVec 16
  deriving DecidableEq, Repr

namespace Enumeration

variable (q : Enumeration) (v : Volume) (rel : Path)

/-- The request for the page at an index. -/
def bytes (index : Nat) : Bytes :=
  [9, 0, 0, 1] ++ (put32 q.did.toNat ++ (put16 q.fbm.toNat ++ (put16 q.dbm.toNat ++
    (put16 q.reqcnt.toNat ++ (put16 index ++ (put16 q.maxsz.toNat ++ q.path))))))

def bitmap (isDir : Bool) : Nat := if isDir then q.dbm.toNat else q.fbm.toNat

def count : Nat := if q.reqcnt.toNat ≠ 0 then q.reqcnt.toNat else 0xFFFF

def cap : Nat := min (if q.maxsz.toNat ≠ 0 then q.maxsz.toNat else 4000) 4000

/-- There is an object of the name, and it is of a kind that is asked for. -/
def wants (nm : Name) : Bool :=
  (v.look (rel.child nm).names).any fun node => q.bitmap node.isDir ≠ 0

def visible : List Name := visibleNames (v.listing rel.names)

/-- The visible entries of the kinds asked for, in the server's order. -/
def wanted : List Name := (visible v rel).filter (q.wants v rel)

/-- The octets of an entry, for some numbers and dates. -/
def entry (ni : NodeInfo) (id parent offspring : Nat) : Bytes :=
  entryOf ni.isDir (packBytes ni id parent offspring (q.bitmap ni.isDir) ni.isDir)

/-- How long an entry is; numbers and dates do not matter. -/
def entryLength (nm : Name) : Nat :=
  ((v.told (rel.child nm) 0).map fun ni => (q.entry ni 0 0 0).length).getD 0

/-- The entry tells of the object of that name. -/
def Tells (parent : Nat) (nm : Name) (bytes : Bytes) : Prop :=
  ∃ ni id offspring, v.told (rel.child nm) ni.mtime = some ni ∧
    bytes = q.entry ni id parent offspring

/-- A reply with the entries of these names. -/
def Shows (names : List Name) (reply : Bytes) : Prop :=
  names.length < 65536 ∧ ∃ parent entries, List.Forall₂ (q.Tells v rel parent) names entries ∧
    reply = put16 q.fbm.toNat ++ put16 q.dbm.toNat ++ put16 names.length ++ entries.flatten

variable {q v rel} {mtime : Int} {ni : NodeInfo} {nm : Name}

theorem told_eq (told : v.told rel mtime = some ni) (other : Int) :
    v.told rel other = some { ni with mtime := other } := by
  obtain ⟨node, found, rfl⟩ := Option.map_eq_some_iff.mp told
  rw [Volume.told, found]
  rfl

theorem mtime_of_told (told : v.told rel mtime = some ni) : ni.mtime = mtime := by
  obtain ⟨node, _, rfl⟩ := Option.map_eq_some_iff.mp told
  rfl

theorem length_paramBytes (ni : NodeInfo) (mtime : Int) (id parent offspring : Nat) (asDir : Bool)
    (nameAt bit : Nat) :
    (paramBytes { ni with mtime := mtime } 0 0 0 asDir 0 bit).length =
      (paramBytes ni id parent offspring asDir nameAt bit).length := by
  unfold paramBytes
  split <;> simp only [put16, put32, length_bigEndian]
  all_goals split <;> simp only [length_bigEndian]

theorem length_entry (ni : NodeInfo) (mtime : Int) (id parent offspring : Nat) :
    (q.entry { ni with mtime := mtime } 0 0 0).length =
      (q.entry ni id parent offspring).length := by
  have fixed : ∀ at_ at_', ((List.range 16).flatMap fun bit =>
      if (q.bitmap ni.isDir).testBit bit then
        paramBytes { ni with mtime := mtime } 0 0 0 ni.isDir at_ bit else []).length =
      ((List.range 16).flatMap fun bit => if (q.bitmap ni.isDir).testBit bit then
        paramBytes ni id parent offspring ni.isDir at_' bit else []).length := by
    intro at_ at_'
    rw [List.length_flatMap, List.length_flatMap]
    congr 1
    apply List.map_congr_left
    intro bit _
    split
    · exact (length_paramBytes { ni with mtime := mtime } mtime 0 0 0 ni.isDir at_ bit).symm.trans
        (length_paramBytes ni mtime id parent offspring ni.isDir at_' bit)
    · rfl
  have packed : (packBytes { ni with mtime := mtime } 0 0 0 (q.bitmap ni.isDir) ni.isDir).length =
      (packBytes ni id parent offspring (q.bitmap ni.isDir) ni.isDir).length := by
    simp only [packBytes, List.length_append]
    rw [fixed _ _]
  simp only [entry, entryOf, List.length_append, packed]

theorem entryLength_eq (told : v.told (rel.child nm) mtime = some ni) (id parent offspring : Nat) :
    q.entryLength v rel nm = (q.entry ni id parent offspring).length := by
  rw [entryLength, told_eq told 0]
  exact length_entry ni 0 id parent offspring

theorem wants_eq {m : Int} :
    q.wants v rel nm = (v.told (rel.child nm) m).any fun ni => q.bitmap ni.isDir ≠ 0 := by
  rw [wants, Volume.told, Option.any_map]
  rfl

theorem child_ne_nil (named : nm ≠ []) : rel.child nm ≠ [] := by
  rw [Path.child]
  split
  · exact named
  · simp

/-- The entries from a name on. -/
abbrev entriesFrom (q : Enumeration) (rel : Path) (parent : Nat) :
    List Name → Nat → Bytes → Action (Nat × Bytes) :=
  enumerateFrom rel parent q.fbm.toNat q.dbm.toNat q.reqcnt.toNat q.cap

theorem entriesFrom_cons (parent : Nat) (nm : Name) (rest : List Name) (act : Nat) (d : Bytes) :
    q.entriesFrom rel parent (nm :: rest) act d =
      if act < q.count then do
        match ← statNode (rel.child nm) with
        | none => q.entriesFrom rel parent rest act d
        | some ni =>
          if q.bitmap ni.isDir = 0 then q.entriesFrom rel parent rest act d
          else do
            let id ← idForPath (rel.child nm)
            let p ← packParams ni id parent (q.bitmap ni.isDir) ni.isDir
            if d.length + (entryOf ni.isDir p).length > q.cap + 6 then return (act, d)
            else q.entriesFrom rel parent rest (act + 1) (d ++ entryOf ni.isDir p)
      else return (act, d) := rfl

/-- Entries are added as a page is filled. -/
theorem wp_entriesFrom {parent room act : Nat} (named : ∀ nm ∈ names, nm ≠ []) {w : World}
    (tree : w.vol.SameTree v) (willing : w.Willing) {d : Bytes}
    (left : d.length + room = q.cap + 6) : wp (q.entriesFrom rel parent names act d)
      (fun result w' => Still w w' ∧ ∃ entries, List.Forall₂ (q.Tells v rel parent)
        (page (q.wants v rel) (q.entryLength v rel) (q.count - act) room names) entries ∧
        result = (act + entries.length, d ++ entries.flatten)) (fun _ _ => True) w := by
  induction names generalizing w act d room with
  | nil => exact ⟨Still.refl w, [], .nil, by simp⟩
  | cons nm rest ih =>
    have later : ∀ nm ∈ rest, nm ≠ [] := (List.forall_mem_cons.mp named).2
    have child : rel.child nm ≠ [] := child_ne_nil (named nm List.mem_cons_self)
    rw [entriesFrom_cons]
    split
    case isFalse full =>
      rw [Nat.sub_eq_zero_of_le (Nat.le_of_not_lt full)]
      exact ⟨Still.refl w, [], .nil, by simp⟩
    case isTrue open_ =>
      rw [show q.count - act = (q.count - (act + 1)) + 1 by omega, page]
      have wants : q.wants v rel nm = _ := wants_eq (m := w.answer.mtime)
      rw [wp_bind]
      refine wp_mono (wp_statNode willing child) ?_
      rintro _ w₁ ⟨rfl, still₁⟩
      rw [Volume.told_congr tree child]
      have tree₁ : w₁.vol.SameTree v := tree.trans still₁.tree
      cases told : v.told (rel.child nm) w.answer.mtime with
      | none =>
        rw [told] at wants
        rw [if_neg (by rw [wants]; simp), show q.count - (act + 1) + 1 = q.count - act by omega]
        exact wp_mono (ih later tree₁ (still₁.willing willing) left)
          fun _ _ last => ⟨still₁.trans last.1, last.2⟩
      | some ni =>
        dsimp only
        rw [told] at wants
        split
        case isTrue unwanted =>
          rw [if_neg (by rw [wants]; simp [unwanted]),
            show q.count - (act + 1) + 1 = q.count - act by omega]
          exact wp_mono (ih later tree₁ (still₁.willing willing) left)
            fun _ _ last => ⟨still₁.trans last.1, last.2⟩
        case isFalse asked =>
          rw [if_pos (by rw [wants]; simp [asked]), wp_bind]
          refine wp_mono (still_idForPath w₁ _) ?_
          intro id w₂ still₂
          rw [wp_bind]
          refine wp_mono (wp_packParams _ _ _ _) ?_
          rintro p w₃ ⟨⟨offspring, rfl⟩, still₃⟩
          have still := still₁.trans (still₂.trans still₃)
          have size : q.entryLength v rel nm = _ := entryLength_eq told id parent offspring
          rw [size]
          split
          case isTrue full =>
            rw [if_neg (by rw [entry]; omega)]
            exact ⟨still, [], .nil, by simp⟩
          case isFalse fits =>
            rw [if_pos (by rw [entry]; omega)]
            have left' : (d ++ q.entry ni id parent offspring).length +
                (room - (q.entry ni id parent offspring).length) = q.cap + 6 := by
              rw [List.length_append, entry]
              omega
            refine wp_mono (ih later (tree.trans still.tree) (still.willing willing) left') ?_
            rintro _ w' ⟨last, entries, tells, rfl⟩
            refine ⟨still.trans last, _, .cons ⟨ni, id, offspring, ?_, rfl⟩ tells, ?_⟩
            · rw [mtime_of_told told, told]
            · simp only [List.length_cons, List.append_assoc, Prod.mk.injEq]
              exact ⟨by omega, rfl⟩

/-- What the server reads of a request. -/
theorem fields (index : Nat) : rd32 (q.bytes index) 4 = q.did.toNat ∧
    rd16 (q.bytes index) 8 = q.fbm.toNat ∧ rd16 (q.bytes index) 10 = q.dbm.toNat ∧
    rd16 (q.bytes index) 12 = q.reqcnt.toNat ∧ rd16 (q.bytes index) 14 = index % 65536 ∧
    rd16 (q.bytes index) 16 = q.maxsz.toNat := by
  have two : ∀ x : BitVec 16, number (put16 x.toNat) = x.toNat := fun x =>
    number_bigEndian_of_lt x.isLt
  have four : number (put32 q.did.toNat) = q.did.toNat := number_bigEndian_of_lt q.did.isLt
  exact ⟨four, two q.fbm, two q.dbm, two q.reqcnt, number_bigEndian 2 index, two q.maxsz⟩

theorem still_pathForId (w : World) (id : Nat) : Walks Still (pathForId id) w := by
  refine steps_get_bind ?_
  dsimp only
  split
  · exact walks_pure
  · split
    · exact walks_pure
    · refine steps_hostIdentity_bind (Still.did fun _ => ⟨rfl, rfl⟩) ?_
      split <;> exact walks_pure

theorem still_resolvePath (w : World) (dirId : Nat) (p : Bytes) :
    Walks Still (resolvePath dirId p) w := by
  rcases p with _ | ⟨type, _ | ⟨len, s⟩⟩
  · exact walks_pure
  · exact walks_pure
  · rw [resolvePath]
    split
    · exact walks_pure
    refine (still_pathForId w dirId).bind fun rel w' _ => ?_
    split
    · exact walks_pure
    · split
      · exact walks_pure
      · exact walks_pure

theorem visibleNames_ne_nil (shown : nm ∈ visibleNames names) : nm ≠ [] := by
  rw [visibleNames, List.mem_insertionSort, List.mem_filter, decide_eq_true_eq] at shown
  exact shown.2.1

theorem count_lt : q.count < 65536 := by
  rw [count]
  split <;> omega

theorem count_ne_zero : q.count ≠ 0 := by
  rw [count]
  split <;> omega

/-- The names on the page at an index. -/
def pageAt (q : Enumeration) (v : Volume) (rel : Path) (index : Nat) : List Name :=
  page (q.wants v rel) (q.entryLength v rel) q.count q.cap
    ((visible v rel).drop (index % 65536 - 1))

/-- The reply to a request that leads to the folder. -/
def Answers (q : Enumeration) (v : Volume) (rel : Path) (index : Nat) (reply : Reply) : Prop :=
  index % 65536 = 0 ∧ reply = err kErrBitmap ∨
    index % 65536 ≠ 0 ∧ (q.pageAt v rel index = [] ∧ reply = err kErrNoObj ∨
      ∃ data, reply = ok data ∧ q.Shows v rel (q.pageAt v rel index) data ∧
        q.pageAt v rel index ≠ [])

theorem wp_fpEnumerate {w : World} {used : Nat} (tree : w.vol.SameTree v) (willing : w.Willing)
    (folder : (v.look rel.names).any Node.isDir = true) (bitmaps : q.fbm ≠ 0 ∨ q.dbm ≠ 0)
    (index : Nat)
    (leads : ((resolvePath q.did.toNat q.path).exec w).1 = .ok (.ok (rel, used))) :
    wp (fpEnumerate (q.bytes index))
      (fun reply w' => Still w w' ∧ q.Answers v rel index reply) (fun _ _ => True) w := by
  obtain ⟨did, fbm, dbm, reqcnt, sindex, maxsz⟩ := fields index
  have long : ¬ (q.bytes index).length < 18 := by
    simp only [bytes, put16, put32, List.length_append, length_bigEndian, List.length_cons]
    omega
  have path : (q.bytes index).drop 18 = q.path := rfl
  rw [fpEnumerate, if_neg long, did, fbm, dbm, reqcnt, sindex, maxsz, path]
  rw [withPath, wp_bind]
  refine wp_mono (still_resolvePath w _ _).ended ?_
  rintro result w₁ ⟨reached, _, ended⟩
  obtain rfl : result = .ok (rel, used) := by
    rw [ended] at leads
    cases leads
    rfl
  have still₁ := Still.of_reached reached
  have willing₁ := still₁.willing willing
  dsimp only
  split
  case isTrue nothing =>
    rcases nothing with zero | none
    · exact ⟨still₁, .inl ⟨zero, rfl⟩⟩
    · exact absurd none (by simpa [BitVec.toNat_eq, imp_iff_not_or] using bitmaps)
  case isFalse asked =>
    have index_ne : index % 65536 ≠ 0 := fun zero => asked (.inl zero)
    have folder₁ : (w₁.vol.look rel.names).any Node.isDir = true := by
      rwa [Volume.look_congr (tree.trans still₁.tree)]
    have present : (w₁.vol.look rel.names).isSome = true := by
      cases found : w₁.vol.look rel.names with
      | none => rw [found] at folder₁; cases folder₁
      | some => rfl
    rw [wp_bind, wp_get, wp_bind, wp_perform, outcome_of_willing willing₁]
    simp only [Volume.apply, present, ↓reduceIte, folder₁]
    have still₂ : Still w (w₁.did (.look rel.names)) := still₁.trans (Still.did fun _ => ⟨rfl, rfl⟩)
    rw [wp_bind]
    refine wp_mono (still_idForPath _ rel) ?_
    intro parent w₃ still₃
    have still₃ := still₂.trans still₃
    have folder₃ : (w₃.vol.look rel.names).any Node.isDir = true := by
      rwa [Volume.look_congr (tree.trans still₃.tree)]
    rw [wp_bind]
    refine wp_mono (wp_listNames (still₃.willing willing) folder₃) ?_
    rintro _ w₄ ⟨rfl, still₄⟩
    have still₄ := still₃.trans still₄
    have names : visibleNames (w₃.vol.listing rel.names) = visible v rel := by
      rw [visible, Volume.listing_congr (tree.trans still₃.tree)]
    rw [names, wp_bind]
    have fine : ∀ nm ∈ (visible v rel).drop (index % 65536 - 1), nm ≠ [] :=
      fun nm inside => visibleNames_ne_nil (List.mem_of_mem_drop inside)
    have header : (put16 q.fbm.toNat ++ put16 q.dbm.toNat ++ put16 0).length + q.cap = q.cap + 6 := by
      simp only [put16, List.length_append, length_bigEndian]
      omega
    refine wp_mono (wp_entriesFrom fine (tree.trans still₄.tree) (still₄.willing willing) header) ?_
    rintro _ w₅ ⟨still₅, entries, tells, rfl⟩
    refine ⟨still₄.trans still₅, .inr ⟨index_ne, ?_⟩⟩
    rw [Nat.sub_zero, ← pageAt] at tells
    have count := tells.length_eq
    rw [enumerateReply, Nat.zero_add]
    split
    case isTrue none => exact .inl ⟨List.length_eq_zero_iff.mp (count.trans none), rfl⟩
    case isFalse shown =>
      refine .inr ⟨_, rfl, ⟨?_, parent, entries, tells, ?_⟩, fun none => shown ?_⟩
      · exact Nat.lt_of_le_of_lt length_page_le count_lt
      · rw [count]
        rfl
      · rw [← count, none]
        rfl

end Enumeration

/-! ## Guests -/

/-- A guest that lists a folder: the index it asks for next, the replies it was given, and the
result that made it stop. -/
structure Browser where
  world : World
  index : Nat := 1
  replies : List Bytes := []
  stopped : Option Int := none

namespace Enumeration

variable {q : Enumeration} {v : Volume} {rel : Path} {w : World}

/-- One request. The guest goes on by the count in the reply and stops at any error. -/
def next (q : Enumeration) (b : Browser) : Browser :=
  if b.stopped.isSome then b
  else
    match (fpEnumerate (q.bytes b.index)).exec b.world with
    | (.error _, w) => { b with world := w, stopped := some kErrMisc }
    | (.ok reply, w) =>
      if reply.result = 0 then
        { b with
          world := w
          index := b.index + rd16 reply.data 4
          replies := b.replies ++ [reply.data] }
      else { b with world := w, stopped := some reply.result }

/-- The request leads to the folder, and the catalogue does not fail. -/
def Answered (q : Enumeration) (rel : Path) (b : Browser) : Prop :=
  b.stopped = none →
    (∃ used, ((resolvePath q.did.toNat q.path).exec b.world).1 = .ok (.ok (rel, used))) ∧
      ((fpEnumerate (q.bytes b.index)).exec b.world).1.isOk = true

/-- The replies are pages with the entries of these names, in this order. -/
def Delivers (q : Enumeration) (v : Volume) (rel : Path) (names : List Name)
    (replies : List Bytes) : Prop :=
  ∃ pages, pages.flatten = names ∧ List.Forall₂ (q.Shows v rel) pages replies

/-- The guest is where a reader of the visible names is. -/
structure Follows (q : Enumeration) (w : World) (rel : Path) (r : Reader Name) (b : Browser) :
    Prop where
  still : Still w b.world
  index : b.index = r.index
  shows : List.Forall₂ (q.Shows w.vol rel) r.pages b.replies
  stopped : r.stopped = b.stopped.map fun result => decide (result = kErrNoObj)

theorem rd16_shows {data : Bytes} (shows : q.Shows v rel names data) :
    rd16 data 4 = names.length := by
  obtain ⟨few, parent, entries, _, rfl⟩ := shows
  have read : number (put16 names.length) = names.length := number_bigEndian_of_lt few
  exact read

theorem Follows.next {r : Reader Name} {b : Browser} (willing : w.Willing)
    (folder : (w.vol.look rel.names).any Node.isDir = true) (bitmaps : q.fbm ≠ 0 ∨ q.dbm ≠ 0)
    (answered : q.Answered rel b) (follows : q.Follows w rel r b) :
    q.Follows w rel (r.next (q.wants w.vol rel) (q.entryLength w.vol rel) q.count q.cap 65536
      (visible w.vol rel)) (q.next b) := by
  have stopped := follows.stopped
  rw [Reader.next, Enumeration.next]
  cases open_ : b.stopped with
  | some result =>
    rw [open_] at stopped
    rwa [stopped, Option.map_some, Option.isSome_some, Option.isSome_some]
  | none =>
    rw [open_] at stopped
    simp only [stopped]
    obtain ⟨⟨used, leads⟩, fine⟩ := answered open_
    have ends := wp_fpEnumerate follows.still.tree (follows.still.willing willing) folder bitmaps
      b.index leads
    rcases exec_cases ends with ⟨reply, w', ended, still, answers⟩ | ⟨_, _, ended, _⟩
    swap
    · rw [ended] at fine
      cases fine
    have still := follows.still.trans still
    rw [ended]
    rw [follows.index] at answers
    have asks : r.asks (q.wants w.vol rel) (q.entryLength w.vol rel) q.count q.cap 65536
        (visible w.vol rel) = q.pageAt w.vol rel r.index := rfl
    rw [asks]
    dsimp only
    rcases answers with ⟨zero, rfl⟩ | ⟨index, ⟨empty, rfl⟩ | ⟨data, rfl, shows, more⟩⟩
    · rw [if_pos zero]
      exact ⟨still, follows.index, follows.shows, rfl⟩
    · rw [if_neg index, if_pos empty]
      exact ⟨still, follows.index, follows.shows, rfl⟩
    · rw [if_neg index, if_neg more]
      refine ⟨still, ?_, ?_, rfl⟩
      · rw [follows.index]
        exact congrArg _ (rd16_shows shows)
      · exact List.rel_append follows.shows (.cons shows .nil)

theorem follows_iterate (willing : w.Willing)
    (folder : (w.vol.look rel.names).any Node.isDir = true) (bitmaps : q.fbm ≠ 0 ∨ q.dbm ≠ 0)
    (answered : ∀ n, q.Answered rel (q.next^[n] { world := w })) (n : Nat) :
    q.Follows w rel ((Reader.next (q.wants w.vol rel) (q.entryLength w.vol rel) q.count q.cap 65536
      (visible w.vol rel))^[n] Reader.start) (q.next^[n] { world := w }) := by
  induction n with
  | zero => exact ⟨Still.refl w, rfl, .nil, rfl⟩
  | succ n ih =>
    rw [Function.iterate_succ_apply', Function.iterate_succ_apply']
    exact ih.next willing folder bitmaps (answered n)

/-- As many entries are counted whichever names the replies are taken to show. -/
theorem length_flatten_eq {pages pages' : List (List Name)} {replies : List Bytes}
    (shows : List.Forall₂ (q.Shows v rel) pages replies)
    (shows' : List.Forall₂ (q.Shows v rel) pages' replies) :
    pages.flatten.length = pages'.flatten.length := by
  induction shows generalizing pages' with
  | nil =>
    cases shows'
    rfl
  | cons first _ ih =>
    cases shows' with
    | cons first' rest' =>
      rw [List.flatten_cons, List.flatten_cons, List.length_append, List.length_append,
        ih rest', ← rd16_shows first, ← rd16_shows first']

end Enumeration

/-- A guest that lists a folder which stays as it is has every entry it wants once, in the server's
order, exactly if these come before all other entries and the index can count them. -/
theorem listing_in_pages {q : Enumeration} {w : World} {rel : Path} (willing : w.Willing)
    (folder : (w.vol.look rel.names).any Node.isDir = true) (bitmaps : q.fbm ≠ 0 ∨ q.dbm ≠ 0)
    (fits : ∀ nm ∈ q.wanted w.vol rel, q.entryLength w.vol rel nm ≤ q.cap)
    (answered : ∀ n, q.Answered rel (q.next^[n] { world := w })) :
    (∃ n, (q.next^[n] { world := w }).stopped = some kErrNoObj ∧
      q.Delivers w.vol rel (q.wanted w.vol rel) (q.next^[n] { world := w }).replies) ↔
    q.wanted w.vol rel <+: Enumeration.visible w.vol rel ∧
      (q.wanted w.vol rel).length + 1 < 65536 := by
  have fits' : ∀ nm ∈ Enumeration.visible w.vol rel, q.wants w.vol rel nm = true →
      q.entryLength w.vol rel nm ≤ q.cap := fun nm inside wants =>
    fits nm (List.mem_filter.mpr ⟨inside, wants⟩)
  constructor
  · rintro ⟨n, stopped, pages, names, shows⟩
    have follows := Enumeration.follows_iterate willing folder bitmaps answered n
    have ended := follows.stopped
    rw [stopped] at ended
    refine Reader.isPrefix_of_ended (by decide) Enumeration.count_ne_zero fits'
      (Reader.placed_iterate n) ended ?_
    rw [Reader.given, Enumeration.length_flatten_eq follows.shows shows, names]
    rfl
  · rintro ⟨first, few⟩
    obtain ⟨n, ended, given⟩ := Reader.ends_of_isPrefix Enumeration.count_ne_zero fits' first few
    have follows := Enumeration.follows_iterate willing folder bitmaps answered n
    refine ⟨n, ?_, _, given, follows.shows⟩
    have stopped := follows.stopped
    rw [ended] at stopped
    obtain ⟨result, found, same⟩ := Option.map_eq_some_iff.mp stopped.symm
    rw [found, of_decide_eq_true same]

namespace Sample

/-- A file and behind it a folder. -/
def mixed : World where
  cat := .initial
  vol :=
    { root := rootIdentity
      items := [([a], nodeA), ([b], ⟨nodeB.identity, none⟩)]
      beside := none
      catalog := none }
  trace := []
  oracle := willing

/-- The names of what is in the shared folder, of files and folders. -/
def allNames : Enumeration := ⟨2, [2, 0], 0x40, 0x40, 10, 1000⟩

/-- The same of folders only. -/
def folderNames : Enumeration := ⟨2, [2, 0], 0, 0x40, 10, 1000⟩

theorem answered_allNames (n : Nat) :
    allNames.Answered [] (allNames.next^[n] { world := mixed }) := by
  match n with
  | 0 => exact fun _ => ⟨⟨2, by decide +kernel⟩, by decide +kernel⟩
  | 1 => exact fun _ => ⟨⟨2, by decide +kernel⟩, by decide +kernel⟩
  | n + 2 =>
    have stopped : (allNames.next^[2] { world := mixed }).stopped = some kErrNoObj := by
      decide +kernel
    have stays : allNames.next (allNames.next^[2] { world := mixed }) =
        allNames.next^[2] { world := mixed } := by
      rfl
    rw [Function.iterate_add_apply, Function.iterate_fixed stays]
    intro open_
    cases open_

end Sample

/-- Both names are given once. -/
theorem listing_in_pages_all :
    ∃ n, (Sample.allNames.next^[n] { world := Sample.mixed }).stopped = some kErrNoObj ∧
      Sample.allNames.Delivers Sample.mixed.vol [] [Sample.a, Sample.b]
        (Sample.allNames.next^[n] { world := Sample.mixed }).replies :=
  (@listing_in_pages Sample.allNames Sample.mixed [] (fun _ => rfl)
    (by decide +kernel) (by decide) (by decide +kernel) Sample.answered_allNames).mpr
      (by decide +kernel)

/-- The one folder behind a file is given twice. -/
theorem folder_listed_twice :
    Sample.folderNames.wanted Sample.mixed.vol [] = [Sample.b] ∧
      (Sample.folderNames.next^[3] { world := Sample.mixed }).stopped = some kErrNoObj ∧
      (Sample.folderNames.next^[3] { world := Sample.mixed }).replies =
        [[0, 0, 0, 0x40, 0, 1, 6, 0x80, 0, 2, 1, 0x62],
          [0, 0, 0, 0x40, 0, 1, 6, 0x80, 0, 2, 1, 0x62]] := by
  decide +kernel

end Pom68k.Afp
