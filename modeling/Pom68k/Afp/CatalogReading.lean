import Pom68k.Afp.Bijection

/-! # What the reader of the catalogue accepts

An accepted file gives a catalogue whose maps are inverse, whose paths stay inside the folder and
whose pending operation can be finished. What the server writes from such a catalogue is accepted
and gives the same catalogue back.
-/

namespace Pom68k.Afp

open Foundation Program Std

/-- A text the reader takes for an identity. -/
structure IdentityText (text : Bytes) : Prop where
  ne_nil : text ≠ []
  short : text.length ≤ 256
  chars : text.all identityChar = true

theorem Identity.isText (identity : Identity) : IdentityText identity.text :=
  ⟨identity.ne_nil, identity.short, identity.chars⟩

/-- What holds of the entries of a file. -/
structure Catalog.Entries (c : Catalog) : Prop extends c.Exact where
  valid : ∀ {p : Path} {id : Nat}, c.pathToId[p]? = some id → id ≠ rootId → p.Valid
  texts : ∀ {id : Nat} {text : Bytes}, c.hosts[id]? = some text → IdentityText text
  next_lt : c.nextId < 2 ^ 32

/-- What holds of a catalogue that has been read. -/
structure Catalog.Accepted (c : Catalog) : Prop extends c.Entries where
  journal : journalValid true c c.pendingSource c.pendingDestination (journalFlags c) = true

theorem triple_read32 {P : Bytes → Prop} :
    Triple P read32 (fun n _ => n < 2 ^ 32) fun _ _ => True := by
  intro rest _
  rw [read32, wp_bind, wp_get]
  split
  · trivial
  case isFalse enough =>
    have size : (rest.take 4).length = 4 := by
      rw [List.length_take]
      omega
    have small := number_lt (rest.take 4)
    rwa [size] at small

namespace Catalog

variable {c : Catalog} {id : Nat} {rel : Path}

theorem Entries.enter (entries : c.Entries) (large : 16 ≤ id) (issued : id < c.nextId)
    (valid : rel.Valid) (new : id ∉ c.idToPath) (absent : rel ∉ c.pathToId) :
    (c.enter id rel).Entries where
  root := getElem?_insert_iff.mpr (.inr ⟨valid.ne_nil.symm, entries.root⟩)
  forth := getElem?_insert_inverse entries.forth (ExtTreeMap.getElem?_eq_none new)
  issued found := of_getElem?_insert found (.inr ⟨large, issued⟩) entries.issued
  next := entries.next
  named found := of_getElem?_insert found (fun _ => valid.ne_nil) entries.named
  bound := by
    intro other text found
    obtain ⟨apart, p, known⟩ := entries.bound found
    refine ⟨apart, p, getElem?_insert_iff.mpr (.inr ⟨?_, known⟩)⟩
    rintro rfl
    exact new (ExtTreeMap.mem_iff_isSome_getElem?.mpr (by rw [known]; rfl))
  back := getElem?_insert_inverse entries.back (ExtTreeMap.getElem?_eq_none absent)
  valid found := of_getElem?_insert found (fun _ => valid) entries.valid
  texts := entries.texts
  next_lt := entries.next_lt

theorem Entries.bind {p : Path} {text : Bytes} (entries : c.Entries) (other : id ≠ rootId)
    (known : c.idToPath[id]? = some p) (isText : IdentityText text) :
    (c.bind id text).Entries where
  toExact := entries.toExact.bind other known
  valid := entries.valid
  texts found := of_getElem?_insert found isText entries.texts
  next_lt := entries.next_lt

end Catalog

variable {c : Catalog} {identities : Bool}

theorem triple_readEntry : Triple (fun _ => True) (readEntry c)
      (fun entry _ => 16 ≤ entry.1 ∧ entry.1 < c.nextId ∧ entry.2.Valid ∧ entry.1 ∉ c.idToPath ∧
        entry.2 ∉ c.pathToId) fun _ _ => True := by
  refine triple_read32.bind fun id => triple_read32.bind fun length => ?_
  intro rest _
  rw [wp_bind, wp_get]
  split
  · trivial
  case isFalse fine =>
    rw [wp_bind, take, wp_bind, wp_get, wp_bind, wp_set, wp_pure]
    split
    · trivial
    case isFalse named =>
      simp only [not_or, Bool.not_eq_false] at fine named
      exact ⟨by omega, by omega, validCatalogPath_iff.mp named.1, named.2.1, named.2.2⟩

theorem triple_readIdentity :
    Triple (fun _ => True) readIdentity (fun text _ => IdentityText text) fun _ _ => True := by
  refine triple_read32.bind fun size => ?_
  intro rest _
  rw [wp_bind, wp_get]
  split
  · trivial
  case isFalse fine =>
    rw [wp_bind, take, wp_bind, wp_get, wp_bind, wp_set, wp_pure]
    simp only [not_or] at fine
    have length : (rest.take size).length = size := by
      rw [List.length_take]
      omega
    split
    case isTrue chars =>
      refine ⟨?_, by omega, chars⟩
      intro empty
      rw [empty] at length
      exact fine.1 length.symm
    · trivial

/-- Before the pending operation is read there is none. -/
structure Catalog.Still (c : Catalog) : Prop extends c.Entries where
  source : c.pendingSource = []
  destination : c.pendingDestination = []
  flags : journalFlags c = 0

theorem triple_readRecord (still : c.Still) :
    Triple (fun _ => True) (readRecord identities c) (fun c' _ => c'.Still) fun _ _ => True := by
  refine triple_readEntry.bind ?_
  rintro ⟨id, rel⟩ rest ⟨large, issued, valid, new, absent⟩
  have entered := still.toEntries.enter large issued valid new absent
  dsimp only
  split
  · rw [wp_bind]
    refine wp_mono (triple_readIdentity rest trivial) ?_
    intro text _ isText
    have other : id ≠ rootId := by
      rw [rootId]
      omega
    have known : (c.enter id rel).idToPath[id]? = some rel :=
      ExtTreeMap.getElem?_insert_self
    exact ⟨entered.bind other known isText, still.source, still.destination, still.flags⟩
  · exact ⟨entered, still.source, still.destination, still.flags⟩

theorem triple_readRecords {count : Nat} (still : c.Still) :
    Triple (fun _ => True) (readRecords identities count c) (fun c' _ => c'.Still)
      fun _ _ => True := by
  induction count generalizing c with
  | zero => exact triple_pure fun _ _ => still
  | succ count ih =>
    refine (triple_readRecord still).bind fun c' => ?_
    exact fun rest still => ih still rest trivial

theorem journalFlags_pend (c : Catalog) (source destination : Path) {flags : Nat}
    (small : flags ≤ 3) :
    journalFlags (c.pend source destination (flags.testBit 0) (flags.testBit 1)) = flags := by
  have cases : flags = 0 ∨ flags = 1 ∨ flags = 2 ∨ flags = 3 := by omega
  rcases cases with rfl | rfl | rfl | rfl <;> rfl

theorem journalValid_later {deletion : Bool} {source destination : Path} {flags : Nat}
    (valid : journalValid deletion c source destination flags = true) :
    journalValid true c source destination flags = true := by
  rw [journalValid, decide_eq_true_iff] at valid ⊢
  refine ⟨?_, valid.2⟩
  have small := valid.1
  split at small
  · exact small
  · exact Nat.le_trans small (by decide)

theorem triple_readJournal {deletion : Bool} (entries : c.Entries) :
    Triple (fun _ => True) (readJournal deletion c) (fun c' _ => c'.Accepted) fun _ _ => True := by
  have any : Triple (fun _ => True) readPath (fun _ _ => True) fun _ _ => True := by
    refine triple_read32.bind fun length rest _ => ?_
    rw [wp_bind, wp_get]
    split <;> trivial
  refine any.bind fun source => any.bind fun destination => triple_read32.bind fun flags => ?_
  intro rest _
  split
  case isTrue valid =>
    have later := journalValid_later valid
    have small : flags ≤ 3 := by
      rw [journalValid, decide_eq_true_iff] at later
      exact later.1
    refine ⟨⟨entries.toExact.pend, entries.valid, entries.texts, entries.next_lt⟩, ?_⟩
    rwa [journalFlags_pend c source destination small]
  · trivial

/-- The maps of a file before its first record. -/
theorem entries_start {next : Nat} (large : 16 ≤ next) (small : next < 2 ^ 32) :
    ({ Catalog.initial with nextId := next } : Catalog).Entries where
  root := Catalog.exact_initial.root
  forth := Catalog.exact_initial.forth
  issued := by
    intro id p found
    rcases Catalog.exact_initial.issued found with root | ⟨low, high⟩
    · exact .inl root
    · exact .inr ⟨low, Nat.lt_of_lt_of_le high large⟩
  next := large
  named := Catalog.exact_initial.named
  bound := Catalog.exact_initial.bound
  back := Catalog.exact_initial.back
  valid := by
    intro p id found
    refine of_getElem?_insert found (fun other => absurd rfl other) ?_
    simp
  texts := by
    intro id text found
    simp [Catalog.initial] at found
  next_lt := small

theorem triple_readPending {version : Octet} (still : c.Still) :
    Triple (fun _ => True) (readPending version c) (fun c' _ => c'.Accepted) fun _ _ => True := by
  rw [readPending]
  split
  · refine triple_pure fun _ _ => ⟨still.toEntries, ?_⟩
    rw [still.source, still.destination, still.flags]
    rfl
  · exact triple_readJournal still.toEntries

theorem triple_readFile (version : Octet) (bytes : Bytes) :
    Triple (fun _ => True) (readFile version bytes) (fun c _ => c.Accepted) fun _ _ => True := by
  refine triple_read32.bind fun next rest small => ?_
  rw [wp_bind]
  refine wp_mono (triple_read32 (P := fun _ => True) rest trivial) ?_
  intro count rest _
  split
  · trivial
  case isFalse fine =>
    simp only [not_or, Nat.not_lt] at fine
    have start : ({ Catalog.initial with nextId := next } : Catalog).Still :=
      ⟨entries_start fine.1 small, rfl, rfl, rfl⟩
    refine Triple.bind (triple_readRecords start) (fun c => ?_) rest trivial
    intro rest still
    rw [wp_bind]
    refine wp_mono (triple_readPending still rest trivial) ?_
    intro c rest accepted
    rw [wp_bind, wp_get, wp_bind]
    refine wp_mono (triple_read32 (P := fun _ => True) rest trivial) ?_
    intro stored rest _
    rw [wp_bind, wp_get]
    split
    · trivial
    · exact accepted

/-- What the reader accepts. -/
theorem accepted_of_parse {bytes : Bytes} (read : parseCatalog bytes = .ok c) : c.Accepted := by
  rw [parseCatalog] at read
  split at read
  · cases read
  split at read
  · cases read
  case h_2 version _ =>
    have ends := triple_readFile version bytes (bytes.drop 8) trivial
    rw [wp] at ends
    split at ends
    case h_1 ended =>
      rw [ended] at read
      cases read
      exact ends
    case h_2 ended =>
      rw [ended] at read
      cases read

/-! ## What is written is accepted -/

/-- The reader takes what was written off the front and goes on with the rest. -/
def Reads {α : Type} (p : Reading α) (written : Bytes) (a : α) : Prop :=
  ∀ rest, wp p (fun b left => b = a ∧ left = rest) (fun _ _ => False) (written ++ rest)

section Reads

variable {α β : Type} {p : Reading α} {f : α → Reading β} {front back : Bytes} {a : α} {b : β}

theorem Reads.bind (first : Reads p front a) (next : Reads (f a) back b) :
    Reads (p >>= f) (front ++ back) b := by
  intro rest
  rw [wp_bind, List.append_assoc]
  refine wp_mono (first (back ++ rest)) ?_
  rintro _ _ ⟨rfl, rfl⟩
  exact next rest

theorem reads_pure (a : α) : Reads (pure a) [] a := fun _ => ⟨rfl, rfl⟩

/-- A reader that first looks at what is left. -/
theorem reads_get_bind {f : Bytes → Reading β} {written : Bytes}
    (next : ∀ rest, wp (f (written ++ rest)) (fun c left => c = b ∧ left = rest)
      (fun _ _ => False) (written ++ rest)) : Reads (get >>= f) written b := fun rest => by
  exact next rest

theorem reads_take (written : Bytes) : Reads (take written.length) written written := by
  intro rest
  rw [take, wp_bind, wp_get, wp_bind, wp_set, List.take_left, List.drop_left]
  exact ⟨rfl, rfl⟩

theorem reads_read32 {n : Nat} (small : n < 2 ^ 32) : Reads read32 (bigEndian 4 n) n := by
  refine reads_get_bind fun rest => ?_
  have long : ¬ (bigEndian 4 n ++ rest).length < 4 := by
    rw [List.length_append, length_bigEndian]
    omega
  rw [if_neg long, wp_bind]
  have taken := reads_take (bigEndian 4 n) rest
  refine wp_mono taken ?_
  rintro _ _ ⟨rfl, rfl⟩
  exact ⟨number_bigEndian_of_lt small, rfl⟩

end Reads

theorem reads_readEntry {id : Nat} {rel : Path} (large : 16 ≤ id) (issued : id < c.nextId)
    (next_lt : c.nextId < 2 ^ 32) (valid : rel.Valid) (short : rel.length < 2 ^ 32)
    (new : id ∉ c.idToPath) (absent : rel ∉ c.pathToId) :
    Reads (readEntry c) (bigEndian 4 id ++ (bigEndian 4 rel.length ++ rel)) (id, rel) := by
  refine (reads_read32 (Nat.lt_trans issued next_lt)).bind ((reads_read32 short).bind ?_)
  refine reads_get_bind fun rest => ?_
  have fine : ¬ (id < 16 ∨ c.nextId ≤ id ∨ (rel ++ rest).length < rel.length) := by
    rw [List.length_append]
    omega
  rw [if_neg fine, wp_bind]
  refine wp_mono (reads_take rel rest) ?_
  rintro _ _ ⟨rfl, rfl⟩
  rw [if_neg]
  · exact ⟨rfl, rfl⟩
  · rw [validCatalogPath_iff.mpr valid]
    simp [new, absent]

theorem reads_readIdentity {text : Bytes} (isText : IdentityText text) :
    Reads readIdentity (bigEndian 4 text.length ++ text) text := by
  have short := isText.short
  refine (reads_read32 (by omega)).bind (reads_get_bind fun rest => ?_)
  have fine : ¬ (text.length = 0 ∨ 256 < text.length ∨ (text ++ rest).length < text.length) := by
    have positive := List.length_pos_of_ne_nil isText.ne_nil
    rw [List.length_append]
    omega
  rw [if_neg fine, wp_bind]
  refine wp_mono (reads_take text rest) ?_
  rintro _ _ ⟨rfl, rfl⟩
  rw [if_pos isText.chars]
  exact ⟨rfl, rfl⟩

theorem reads_readRecord {id : Nat} {rel : Path} {text : Bytes} (large : 16 ≤ id)
    (issued : id < c.nextId) (next_lt : c.nextId < 2 ^ 32) (valid : rel.Valid)
    (short : rel.length < 2 ^ 32) (new : id ∉ c.idToPath) (absent : rel ∉ c.pathToId)
    (isText : IdentityText text) :
    Reads (readRecord true c) (recordBytes rel id text) ((c.enter id rel).bind id text) := by
  have entry := reads_readEntry large issued next_lt valid short new absent
  have record := entry.bind (f := fun e => do return (c.enter e.1 e.2).bind e.1 (← readIdentity))
    ((reads_readIdentity isText).bind (reads_pure _))
  rwa [List.append_nil] at record

theorem reads_readPath {path : Path} (short : path.length < 2 ^ 32) :
    Reads readPath (bigEndian 4 path.length ++ path) path := by
  refine (reads_read32 short).bind (reads_get_bind fun rest => ?_)
  rw [if_neg (by rw [List.length_append]; omega)]
  exact reads_take path rest

/-- Entries with their identities, one after the other. -/
def Catalog.enterAll (identity : Nat → Bytes) (c : Catalog) (entries : List (Path × Nat)) : Catalog :=
  entries.foldl (fun c entry => (c.enter entry.2 entry.1).bind entry.2 (identity entry.2)) c

section EnterAll

variable {identity : Nat → Bytes} {entries : List (Path × Nat)}

theorem enterAll_eq :
    c.enterAll identity entries =
      { c with
        pathToId := c.pathToId.insertMany entries
        idToPath := c.idToPath.insertMany (entries.map Prod.swap)
        hosts := c.hosts.insertMany (entries.map fun entry => (entry.2, identity entry.2)) } := by
  induction entries generalizing c with
  | nil => rfl
  | cons entry rest ih =>
    rw [List.map_cons, List.map_cons, ExtTreeMap.insertMany_cons,
      ExtTreeMap.insertMany_cons, ExtTreeMap.insertMany_cons]
    exact ih

theorem reads_readRecords
    (fine : ∀ entry ∈ entries, 16 ≤ entry.2 ∧ entry.2 < c.nextId ∧ entry.1.Valid ∧
      entry.1.length < 2 ^ 32 ∧ IdentityText (identity entry.2) ∧
      entry.2 ∉ c.idToPath ∧ entry.1 ∉ c.pathToId)
    (next_lt : c.nextId < 2 ^ 32) (paths : (entries.map Prod.fst).Nodup)
    (ids : (entries.map Prod.snd).Nodup) :
    Reads (readRecords true entries.length c)
      (entries.flatMap fun entry => recordBytes entry.1 entry.2 (identity entry.2))
      (c.enterAll identity entries) := by
  induction entries generalizing c with
  | nil => exact reads_pure c
  | cons entry rest ih =>
    obtain ⟨path, id⟩ := entry
    obtain ⟨large, issued, valid, short, isText, new, absent⟩ := fine _ (List.mem_cons_self ..)
    rw [List.map_cons, List.nodup_cons] at paths ids
    refine (reads_readRecord large issued next_lt valid short new absent isText).bind ?_
    refine ih (fun entry inside => ?_) next_lt paths.2 ids.2
    obtain ⟨large, issued, valid, short, isText, new, absent⟩ :=
      fine entry (List.mem_cons_of_mem _ inside)
    refine ⟨large, issued, valid, short, isText, ?_, ?_⟩
    · rintro there
      rcases ExtTreeMap.mem_insert.mp there with same | old
      · obtain rfl := LawfulEqCmp.eq_of_compare same
        exact ids.1 (List.mem_map.mpr ⟨entry, inside, rfl⟩)
      · exact new old
    · rintro there
      rcases ExtTreeMap.mem_insert.mp there with same | old
      · obtain rfl := LawfulEqCmp.eq_of_compare same
        exact paths.1 (List.mem_map.mpr ⟨entry, inside, rfl⟩)
      · exact absent old

end EnterAll

/-- The entries that are written: all but the folder itself. -/
def Catalog.listed (c : Catalog) : List (Path × Nat) :=
  c.pathToId.toList.filter fun entry => entry.2 ≠ rootId

section Listed

variable {p : Path} {id : Nat}

theorem mem_listed : (p, id) ∈ c.listed ↔ c.pathToId[p]? = some id ∧ id ≠ rootId := by
  rw [Catalog.listed, List.mem_filter, ExtTreeMap.mem_toList_iff_getElem?_eq_some,
    decide_eq_true_iff]

theorem nodup_listed (c : Catalog) : (c.listed.map Prod.fst).Nodup :=
  c.nodup_paths.sublist (List.filter_sublist.map Prod.fst)

theorem nodup_listed_ids (sound : c.Sound) : (c.listed.map Prod.snd).Nodup := by
  refine List.Nodup.map_on ?_ ((nodup_listed c).of_map Prod.fst)
  rintro ⟨p, id⟩ first ⟨q, _⟩ second same
  cases same
  rw [sound.one (mem_listed.mp first).1 (mem_listed.mp second).1]

theorem length_listed (sound : c.Sound) : c.listed.length = c.pathToId.size - 1 := by
  have root : (([] : Path), rootId) ∈ c.pathToId.toList :=
    ExtTreeMap.mem_toList_iff_getElem?_eq_some.mpr sound.root
  have nodup : c.pathToId.toList.Nodup := c.nodup_paths.of_map Prod.fst
  have same : c.listed = c.pathToId.toList.erase ([], rootId) := by
    rw [nodup.erase_eq_filter]
    refine List.filter_congr ?_
    rintro ⟨p, id⟩ inside
    have there := ExtTreeMap.mem_toList_iff_getElem?_eq_some.mp inside
    rw [Bool.eq_iff_iff]
    simp only [ne_eq, decide_eq_true_eq, bne_iff_ne, Prod.mk.injEq, not_and]
    constructor
    · exact fun other _ => other
    · rintro other rfl
      exact other (sound.one there sound.root) rfl
  rw [same, List.length_erase_of_mem root, ExtTreeMap.length_toList]

theorem flatMap_entryBytes (c : Catalog) :
    c.pathToId.toList.flatMap c.entryBytes =
      c.listed.flatMap fun entry => recordBytes entry.1 entry.2 (c.known entry.2) := by
  rw [Catalog.listed]
  induction c.pathToId.toList with
  | nil => rfl
  | cons entry rest ih =>
    rw [List.flatMap_cons, ih, Catalog.entryBytes]
    by_cases root : entry.2 = rootId
    · simp [root]
    · simp [root]

end Listed

theorem length_le_flatMap {α : Type} {f : α → Bytes} {l : List α} {a : α} (inside : a ∈ l) :
    (f a).length ≤ (l.flatMap f).length := by
  obtain ⟨front, back, rfl⟩ := List.append_of_mem inside
  simp only [List.flatMap_append, List.flatMap_cons, List.length_append]
  omega

theorem nine_mul_le (identity : Nat → Bytes) (entries : List (Path × Nat)) :
    9 * entries.length ≤
      (entries.flatMap fun entry => recordBytes entry.1 entry.2 (identity entry.2)).length := by
  induction entries with
  | nil => exact Nat.le_refl 0
  | cons entry rest ih =>
    have size : 12 ≤ (recordBytes entry.1 entry.2 (identity entry.2)).length := by
      simp only [recordBytes, List.length_append, length_bigEndian]
      omega
    rw [List.flatMap_cons, List.length_append, List.length_cons]
    omega

/-- All entries put into an empty catalogue give the catalogue. -/
theorem enterAll_listed (entries : c.Entries) (bound : c.Bound) :
    ({ Catalog.initial with nextId := c.nextId } : Catalog).enterAll c.known c.listed =
      c.pend [] [] false false := by
  have swapped : ((c.listed.map Prod.swap).map Prod.fst) = c.listed.map Prod.snd := by
    rw [List.map_map]
    rfl
  have hosted : ((c.listed.map fun entry => (entry.2, c.known entry.2)).map Prod.fst) =
      c.listed.map Prod.snd := by
    rw [List.map_map]
    rfl
  have paths : Catalog.initial.pathToId.insertMany c.listed = c.pathToId := by
    refine insertMany_insert_empty (nodup_listed c) entries.root fun p id => ?_
    rw [mem_listed]
    refine and_congr_right fun there => not_congr ⟨?_, ?_⟩
    · rintro rfl
      exact entries.one there entries.root
    · rintro rfl
      exact Option.some.inj (there.symm.trans entries.root)
  have ids : Catalog.initial.idToPath.insertMany (c.listed.map Prod.swap) = c.idToPath := by
    refine insertMany_insert_empty (by rw [swapped]; exact nodup_listed_ids entries.toSound)
      (entries.inverse.mp entries.root) fun id p => ?_
    rw [← entries.inverse, ← mem_listed]
    simp
  have hosts : Catalog.initial.hosts.insertMany
      (c.listed.map fun entry => (entry.2, c.known entry.2)) = c.hosts := by
    refine ExtTreeMap.ext_getElem? fun {id} => Option.ext fun text => ?_
    rw [getElem?_insertMany_iff (by rw [hosted]; exact nodup_listed_ids entries.toSound)]
    constructor
    · rintro (inside | ⟨_, nothing⟩)
      · obtain ⟨⟨p, _⟩, listed, same⟩ := List.mem_map.mp inside
        cases same
        obtain ⟨found, other⟩ := mem_listed.mp listed
        exact Catalog.hosts_of_known (bound found other)
      · simp [Catalog.initial] at nothing
    · intro found
      obtain ⟨other, p, leads⟩ := entries.bound found
      have known : c.known id = text := by rw [Catalog.known, found]; rfl
      refine .inl (List.mem_map.mpr ⟨(p, id), mem_listed.mpr ⟨entries.back leads, other⟩, ?_⟩)
      rw [known]
  rw [enterAll_eq]
  simp only [paths, ids, hosts]
  rfl

theorem reads_readJournal {c c' : Catalog} (source : c.pendingSource.length < 2 ^ 32)
    (destination : c.pendingDestination.length < 2 ^ 32) (same : c'.pathToId = c.pathToId)
    (valid : journalValid true c c.pendingSource c.pendingDestination (journalFlags c) = true) :
    Reads (readJournal true c') (journalBytes c)
      (c'.pend c.pendingSource c.pendingDestination c.pendingSidecar c.pendingDelete) := by
  have bits : (journalFlags c).testBit 0 = c.pendingSidecar ∧
      (journalFlags c).testBit 1 = c.pendingDelete := by
    rw [journalFlags]
    cases c.pendingSidecar <;> cases c.pendingDelete <;> exact ⟨rfl, rfl⟩
  have small : journalFlags c < 2 ^ 32 := by
    rw [journalFlags]
    cases c.pendingSidecar <;> cases c.pendingDelete <;> decide
  refine (reads_readPath source).bind ((reads_readPath destination).bind ?_)
  refine (reads_read32 small).bind ?_
  have valid' : journalValid true c' c.pendingSource c.pendingDestination (journalFlags c) =
      true := by
    rw [journalValid] at valid ⊢
    rwa [same]
  rw [if_pos valid', bits.1, bits.2]
  exact reads_pure _

theorem checksum_lt (bytes : Bytes) : checksum bytes < 2 ^ 32 := BitVec.isLt _

/-- What is written of a catalogue is read back as it was. -/
theorem parse_sealed_render (accepted : c.Accepted) (bound : c.Bound)
    (fits : c.render.length ≤ maxCatalogBytes - 4) : parseCatalog (sealed c.render) = .ok c := by
  set records := c.listed.flatMap fun entry => recordBytes entry.1 entry.2 (c.known entry.2)
    with records_def
  have shape : c.render = magic 0x34 ++ (bigEndian 4 c.nextId ++ (bigEndian 4 c.listed.length ++
      (records ++ journalBytes c))) := by
    rw [Catalog.render, flatMap_entryBytes, headerBytes, length_listed accepted.toSound]
    simp only [List.append_assoc, records_def]
  have size : c.render.length = 16 + records.length + (journalBytes c).length := by
    rw [shape]
    simp only [List.length_append, length_bigEndian]
    rw [show (magic 0x34).length = 8 from rfl]
    omega
  have journal : (journalBytes c).length =
      12 + c.pendingSource.length + c.pendingDestination.length := by
    simp only [journalBytes, List.length_append, length_bigEndian]
    omega
  have total : (sealed c.render).length = c.render.length + 4 := by
    rw [sealed, List.length_append, length_bigEndian]
  have max : maxCatalogBytes = 16777216 := rfl
  have nine := nine_mul_le c.known c.listed
  rw [← records_def] at nine
  have front : (sealed c.render).take 8 = magic 0x34 := by
    rfl
  have behind : (sealed c.render).drop 8 = bigEndian 4 c.nextId ++
      (bigEndian 4 c.listed.length ++ (records ++ (journalBytes c ++
        (bigEndian 4 (checksum c.render) ++ [])))) := by
    rw [sealed]
    nth_rewrite 1 [shape]
    simp only [List.append_assoc]
    rfl
  have version : [0x34#8, 0x33#8, 0x32#8, 0x31#8].find?
      (fun version => (sealed c.render).take 8 = magic version) = some 0x34#8 := by
    rw [front]
    rfl
  have fine : ∀ entry ∈ c.listed, 16 ≤ entry.2 ∧ entry.2 < c.nextId ∧ entry.1.Valid ∧
      entry.1.length < 2 ^ 32 ∧ IdentityText (c.known entry.2) ∧
      entry.2 ∉ Catalog.initial.idToPath ∧ entry.1 ∉ Catalog.initial.pathToId := by
    rintro ⟨p, id⟩ inside
    obtain ⟨there, other⟩ := mem_listed.mp inside
    have short := length_le_flatMap (f := fun entry : Path × Nat =>
      recordBytes entry.1 entry.2 (c.known entry.2)) inside
    rw [← records_def] at short
    simp only [recordBytes, List.length_append] at short
    have numbered : 16 ≤ id ∧ id < c.nextId :=
      (accepted.issued (accepted.forth there)).resolve_left other
    refine ⟨numbered.1, numbered.2, accepted.valid there other, show p.length < 2 ^ 32 by omega,
      accepted.texts (Catalog.hosts_of_known (bound there other)), ?_, ?_⟩
    · intro root
      rw [Catalog.initial, ExtTreeMap.mem_insert] at root
      rcases root with same | nothing
      · exact other (LawfulEqCmp.eq_of_compare same).symm
      · simp at nothing
    · intro root
      rw [Catalog.initial, ExtTreeMap.mem_insert] at root
      rcases root with same | nothing
      · exact (accepted.valid there other).ne_nil (LawfulEqCmp.eq_of_compare same).symm
      · simp at nothing
  have read_records := reads_readRecords (c := { Catalog.initial with nextId := c.nextId }) fine
    accepted.next_lt (nodup_listed c) (nodup_listed_ids accepted.toSound)
  rw [enterAll_listed accepted.toEntries bound] at read_records
  have read_journal : Reads (readJournal true (c.pend [] [] false false)) (journalBytes c) _ :=
    reads_readJournal (by omega) (by omega) rfl accepted.journal
  rw [parseCatalog, if_neg (by omega)]
  refine exec_of_wp ?_
  rw [behind, readFile, wp_bind]
  refine wp_mono (reads_read32 accepted.next_lt _) ?_
  rintro _ _ ⟨rfl, rfl⟩
  rw [wp_bind]
  refine wp_mono (reads_read32 (by omega) _) ?_
  rintro _ _ ⟨rfl, rfl⟩
  have large := accepted.next
  have header : ¬ (c.nextId < 16 ∨ ((sealed c.render).length - 20) / 9 < c.listed.length) := by
    omega
  rw [if_neg header, wp_bind]
  refine wp_mono (read_records _) ?_
  rintro _ _ ⟨rfl, rfl⟩
  rw [wp_bind, readPending]
  refine wp_mono (read_journal _) ?_
  rintro _ _ ⟨rfl, rfl⟩
  rw [wp_bind, wp_get, wp_bind]
  have payload : (sealed c.render).take ((sealed c.render).length -
      (bigEndian 4 (checksum c.render) ++ []).length) = c.render := by
    rw [total, List.append_nil, length_bigEndian, Nat.add_sub_cancel, sealed, List.take_left]
  refine wp_mono (reads_read32 (checksum_lt c.render) []) ?_
  rintro _ _ ⟨rfl, rfl⟩
  rw [wp_bind, wp_get, payload, if_neg (by simp)]
  rfl

end Pom68k.Afp
