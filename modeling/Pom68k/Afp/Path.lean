import Mathlib.Data.BitVec
import Mathlib.Data.List.TakeWhile

/-! # Paths below a shared folder

Paths are strings of octets relative to the folder, with slashes between their parts. What a
guest sends has other separators, steps to a parent, and names that may hold a slash.
-/

namespace Pom68k.Afp

abbrev Octet := BitVec 8

abbrev Bytes := List Octet

abbrev Path := Bytes

def slash : Octet := 0x2F#8

def dot : Octet := 0x2E#8

def colon : Octet := 0x3A#8

/-- A name that may stand in the catalogue. -/
def validPart (part : Bytes) : Bool := part ≠ [] ∧ part.head? ≠ some dot ∧ 0#8 ∉ part

def validCatalogPath (path : Path) : Bool :=
  path ≠ [] ∧ path.head? ≠ some slash ∧ path.getLast? ≠ some slash ∧
    (path.splitOn slash).all validPart

/-- A name below a folder. -/
def Path.child (rel : Path) (name : Bytes) : Path := if rel = [] then name else rel ++ slash :: name

/-- What comes before the last slash. -/
def Path.parent (rel : Path) : Path :=
  if slash ∈ rel then (rel.reverse.dropWhile (· ≠ slash)).tail.reverse else []

/-- What comes behind the last slash. -/
def Path.leaf (rel : Path) : Path := (rel.reverse.takeWhile (· ≠ slash)).reverse

/-- A path and everything below it. -/
def Path.Below (rel path : Path) : Prop := path = rel ∨ (rel ++ [slash]) <+: path

instance (rel path : Path) : Decidable (rel.Below path) := inferInstanceAs (Decidable (_ ∨ _))

def macToUnix (s : Bytes) : Bytes := s.map fun c => if c = slash then colon else c

def unixToMac (s : Bytes) : Bytes := s.map fun c => if c = colon then slash else c

/-- One element of a guest's path. -/
def enter (rel : Path) (mac : Bytes) : Option Path :=
  let ux := macToUnix mac
  if ux = [] ∨ ux.head? = some dot ∨ slash ∈ ux then none else some (rel.child ux)

/-- A guest's path, element by element: a NUL behind an element ends it, any other is a step to
the parent. -/
def walkElements (rel : Path) (element : Bytes) : Bytes → Option Path
  | [] => if element = [] then some rel else enter rel element
  | c :: s =>
    if c ≠ 0#8 then walkElements rel (element ++ [c]) s
    else if element = [] then walkElements rel.parent [] s
    else (enter rel element).bind fun rel => walkElements rel [] s

/-! ## Paths of valid parts -/

/-- All parts of the path may stand in the catalogue. -/
def Path.Valid (path : Path) : Prop := ∀ part ∈ path.splitOn slash, validPart part = true

namespace Path

theorem splitOn_append (front back : Path) :
    (front ++ slash :: back).splitOn slash = front.splitOn slash ++ back.splitOn slash :=
  List.splitOnP_append_cons front back (beq_self_eq_true slash)

theorem valid_append {front back : Path} :
    Valid (front ++ slash :: back) ↔ Valid front ∧ Valid back := by
  simp only [Valid, splitOn_append, List.forall_mem_append]

theorem not_valid_nil : ¬ Valid [] := fun valid =>
  absurd (valid [] (List.mem_singleton_self [])) (by decide)

variable {path : Path} {name : Bytes} {rel : Path}

theorem Valid.ne_nil (valid : path.Valid) : path ≠ [] := by
  rintro rfl
  exact not_valid_nil valid

theorem splitOn_of_not_mem (whole : slash ∉ name) : name.splitOn slash = [name] := by
  have joined : ([slash].intercalate [name]).splitOn slash = [name] :=
    List.splitOn_intercalate slash (by simpa using whole) (by simp)
  simpa using joined

theorem valid_of_part (whole : slash ∉ name) (part : validPart name = true) : Valid name := by
  rw [Valid, splitOn_of_not_mem whole]
  simpa using part

/-- A path with a slash is its parent, the slash and its leaf. -/
theorem parent_append_leaf (nested : slash ∈ rel) : rel.parent ++ slash :: rel.leaf = rel := by
  have found : slash ∈ rel.reverse := List.mem_reverse.mpr nested
  obtain ⟨rest, cut⟩ : ∃ rest, rel.reverse.dropWhile (· ≠ slash) = slash :: rest := by
    cases cut : rel.reverse.dropWhile (· ≠ slash) with
    | nil =>
      have := List.dropWhile_eq_nil_iff.mp cut slash found
      simp at this
    | cons c rest =>
      have := List.head?_dropWhile_not (· ≠ slash) rel.reverse
      rw [cut] at this
      have same : c = slash := by simpa using this
      exact ⟨rest, same ▸ rfl⟩
  have whole := List.takeWhile_append_dropWhile (p := (· ≠ slash)) (l := rel.reverse)
  rw [cut] at whole
  rw [parent, if_pos nested, cut, leaf]
  have back := congrArg List.reverse whole
  simpa using back

theorem leaf_of_flat (flat : slash ∉ rel) : rel.leaf = rel := by
  have all : ∀ c ∈ rel.reverse, (c ≠ slash) := by
    rintro c inside rfl
    exact flat (List.mem_reverse.mp inside)
  rw [leaf, List.takeWhile_eq_self_iff.mpr (by simpa using all), List.reverse_reverse]

/-- The folder itself, or a path of valid parts below it. -/
def Tidy (path : Path) : Prop := path = [] ∨ path.Valid

theorem Tidy.parent (tidy : rel.Tidy) : rel.parent.Tidy := by
  by_cases nested : slash ∈ rel
  · rcases tidy with rfl | valid
    · exact absurd nested (by simp)
    · rw [← parent_append_leaf nested] at valid
      exact .inr (valid_append.mp valid).1
  · exact .inl ((if_neg nested))

theorem Valid.leaf (valid : rel.Valid) : rel.leaf.Valid := by
  by_cases nested : slash ∈ rel
  · rw [← parent_append_leaf nested] at valid
    exact (valid_append.mp valid).2
  · rwa [leaf_of_flat nested]

theorem Tidy.child (tidy : rel.Tidy) (valid : Valid name) : (rel.child name).Valid := by
  rw [Path.child]
  split
  · exact valid
  case isFalse some =>
    rcases tidy with none | above
    · exact absurd none some
    · exact valid_append.mpr ⟨above, valid⟩

theorem Below.eq_append (below : rel.Below path) :
    ∃ suffix, path = rel ++ suffix ∧ (suffix = [] ∨ ∃ rest, suffix = slash :: rest) := by
  rcases below with rfl | ⟨rest, rfl⟩
  · exact ⟨[], (List.append_nil _).symm, .inl rfl⟩
  · exact ⟨slash :: rest, by simp, .inr ⟨rest, rfl⟩⟩

theorem not_below_nil (named : rel ≠ []) : ¬ rel.Below [] := by
  rintro (same | inside)
  · exact named same.symm
  · exact absurd inside (by simp)

theorem Below.append_drop (below : rel.Below path) : rel ++ path.drop rel.length = path := by
  obtain ⟨suffix, rfl, _⟩ := below.eq_append
  rw [List.drop_left]

theorem Below.moved {source : Path} (below : source.Below path) (destination : Path) :
    destination.Below (destination ++ path.drop source.length) := by
  obtain ⟨suffix, rfl, rfl | ⟨rest, rfl⟩⟩ := below.eq_append
  · exact .inl (by simp)
  · exact .inr ⟨rest, by simp⟩

/-- What is below a path can be put below another. -/
theorem Valid.moved {source destination : Path} (below : source.Below path)
    (valid : path.Valid) (target : destination.Valid) :
    (destination ++ path.drop source.length).Valid := by
  obtain ⟨suffix, rfl, rfl | ⟨rest, rfl⟩⟩ := below.eq_append
  · simpa using target
  · rw [List.drop_left]
    exact valid_append.mpr ⟨target, (valid_append.mp valid).2⟩

end Path

theorem validCatalogPath_iff {path : Path} : validCatalogPath path = true ↔ path.Valid := by
  have front : path.Valid → path.head? ≠ some slash := by
    rintro valid starts
    obtain ⟨rest, rfl⟩ := List.head?_eq_some_iff.mp starts
    exact Path.not_valid_nil (Path.valid_append.mp (show Path.Valid ([] ++ slash :: rest) from
      valid)).1
  have back : path.Valid → path.getLast? ≠ some slash := by
    rintro valid ends
    obtain ⟨rest, rfl⟩ := List.getLast?_eq_some_iff.mp ends
    exact Path.not_valid_nil (Path.valid_append.mp valid).2
  rw [validCatalogPath, decide_eq_true_iff, List.all_eq_true]
  exact ⟨fun checks => checks.2.2.2, fun valid => ⟨valid.ne_nil, front valid, back valid, valid⟩⟩

theorem valid_enter {rel rel' : Path} {mac : Bytes} (tidy : rel.Tidy) (plain : 0#8 ∉ mac)
    (entered : enter rel mac = some rel') : rel'.Valid := by
  rw [enter] at entered
  split at entered
  · cases entered
  case isFalse fine =>
    cases entered
    simp only [not_or] at fine
    refine tidy.child (Path.valid_of_part fine.2.2 ?_)
    rw [validPart, decide_eq_true_iff]
    refine ⟨fine.1, fine.2.1, fun zero => ?_⟩
    obtain ⟨c, inside, same⟩ := List.mem_map.mp zero
    split at same
    · exact absurd same (by decide)
    · exact plain (same ▸ inside)

/-- What a guest can name is the folder or a valid path below it. -/
theorem tidy_walkElements {rel rel' : Path} {element s : Bytes} (tidy : rel.Tidy)
    (plain : 0#8 ∉ element) (walked : walkElements rel element s = some rel') : rel'.Tidy := by
  induction s generalizing rel element with
  | nil =>
    rw [walkElements] at walked
    split at walked
    · cases walked
      exact tidy
    · exact .inr (valid_enter tidy plain walked)
  | cons c s ih =>
    rw [walkElements] at walked
    split at walked
    case isTrue more =>
      refine ih tidy ?_ walked
      simpa [plain] using more.symm
    case isFalse =>
      split at walked
      · exact ih tidy.parent (by simp) walked
      · obtain ⟨next, entered, walked⟩ := Option.bind_eq_some_iff.mp walked
        exact ih (.inr (valid_enter tidy plain entered)) (by simp) walked

end Pom68k.Afp
