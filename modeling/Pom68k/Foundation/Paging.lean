import Mathlib.Data.List.Basic
import Mathlib.Logic.Function.Iterate

/-! # Lists handed out in pages

A page begins at an index of the whole list, leaves out what is not wanted and ends when it is
full. A reader asks for the first page and goes on from the index it asked for by as many entries
as it was given, until a page is empty. Indices are sent modulo a bound, and zero is not one.

The reader is given every wanted entry once exactly if the wanted entries come first in the list.
-/

namespace Pom68k.Foundation

variable {α : Type*} {wanted : α → Bool} {size : α → Nat} {count room bound : Nat} {l : List α}

/-- The entries of a page with so many entries and so much room at most. -/
def page (wanted : α → Bool) (size : α → Nat) : Nat → Nat → List α → List α
  | _, _, [] => []
  | 0, _, _ :: _ => []
  | count + 1, room, a :: rest =>
    if wanted a then
      if size a ≤ room then a :: page wanted size count (room - size a) rest else []
    else page wanted size (count + 1) room rest

theorem page_isPrefix : page wanted size count room l <+: l.filter wanted := by
  induction l generalizing count room with
  | nil => exact List.nil_prefix
  | cons a rest ih =>
    cases count with
    | zero => exact List.nil_prefix
    | succ count =>
      simp only [page]
      split
      case isTrue yes =>
        rw [List.filter_cons_of_pos yes]
        split
        · exact (List.prefix_cons_inj a).mpr ih
        · exact List.nil_prefix
      case isFalse no =>
        rw [List.filter_cons_of_neg no]
        exact ih

theorem length_page_le : (page wanted size count room l).length ≤ count := by
  induction l generalizing count room with
  | nil => exact Nat.zero_le _
  | cons a rest ih =>
    cases count with
    | zero => exact Nat.le_refl _
    | succ count =>
      simp only [page]
      split
      · split
        · exact Nat.succ_le_succ ih
        · exact Nat.zero_le _
      · exact ih

/-- A page with room for any one entry is empty only when no wanted entry is left. -/
theorem page_eq_nil_iff (takes : count ≠ 0) (fits : ∀ a ∈ l, wanted a = true → size a ≤ room) :
    page wanted size count room l = [] ↔ l.filter wanted = [] := by
  constructor
  · intro empty
    induction l with
    | nil => rfl
    | cons a rest ih =>
      obtain ⟨count, rfl⟩ := Nat.exists_eq_succ_of_ne_zero takes
      simp only [page] at empty
      split at empty
      case isTrue yes =>
        rw [if_pos (fits a List.mem_cons_self yes)] at empty
        cases empty
      case isFalse no =>
        rw [List.filter_cons_of_neg no]
        exact ih (fun b inside => fits b (List.mem_cons_of_mem a inside)) empty
  · intro none
    have front : page wanted size count room l <+: [] := none ▸ page_isPrefix
    exact List.prefix_nil.mp front

/-- Where a reader is, what it was given, and whether it ended with an empty page. -/
structure Reader (α : Type*) where
  index : Nat
  pages : List (List α)
  stopped : Option Bool

namespace Reader

def start : Reader α := ⟨1, [], none⟩

def given (r : Reader α) : List α := r.pages.flatten

/-- What is asked for next. -/
def asks (wanted : α → Bool) (size : α → Nat) (count room bound : Nat) (l : List α)
    (r : Reader α) : List α :=
  page wanted size count room (l.drop (r.index % bound - 1))

def next (wanted : α → Bool) (size : α → Nat) (count room bound : Nat) (l : List α)
    (r : Reader α) : Reader α :=
  if r.stopped.isSome then r
  else if r.index % bound = 0 then { r with stopped := some false }
  else
    let entries := r.asks wanted size count room bound l
    if entries = [] then { r with stopped := some true }
    else { index := r.index + entries.length, pages := r.pages ++ [entries], stopped := none }

/-- The index is behind what was given, and a reader that ended had asked for what is not there. -/
structure Placed (wanted : α → Bool) (size : α → Nat) (count room bound : Nat) (l : List α)
    (r : Reader α) : Prop where
  index : r.index = 1 + r.given.length
  ended : r.stopped = some true → r.index % bound ≠ 0 ∧ r.asks wanted size count room bound l = []

variable {r : Reader α}

theorem Placed.next (placed : Placed wanted size count room bound l r) :
    Placed wanted size count room bound l (r.next wanted size count room bound l) := by
  unfold Reader.next
  split
  · exact placed
  case isFalse open_ =>
    split
    · exact ⟨placed.index, fun ended => by cases ended⟩
    case isFalse index =>
      dsimp only
      split
      case isTrue empty => exact ⟨placed.index, fun _ => ⟨index, empty⟩⟩
      case isFalse =>
        refine ⟨?_, fun ended => by cases ended⟩
        have behind := placed.index
        simp only [given, List.flatten_append, List.flatten_cons, List.flatten_nil, List.append_nil,
          List.length_append] at behind ⊢
        omega

theorem placed_iterate (n : Nat) :
    Placed wanted size count room bound l ((next wanted size count room bound l)^[n] start) := by
  induction n with
  | zero => exact ⟨rfl, fun ended => by cases ended⟩
  | succ n ih =>
    rw [Function.iterate_succ_apply']
    exact ih.next

/-- Once nothing wanted is left behind as many entries as are wanted, these come first. -/
theorem isPrefix_of_drop (none : (l.drop (l.filter wanted).length).filter wanted = []) :
    l.filter wanted <+: l := by
  have parts := List.filter_append (p := wanted) (l.take (l.filter wanted).length)
    (l.drop (l.filter wanted).length)
  rw [List.take_append_drop, none, List.append_nil] at parts
  have whole : (l.take (l.filter wanted).length).filter wanted =
      l.take (l.filter wanted).length := by
    refine List.filter_sublist.eq_of_length_le ?_
    rw [← parts]
    exact List.length_take_le _ _
  rw [parts, whole]
  exact List.take_prefix _ _

theorem filter_length_le_of_drop {k : Nat} (none : (l.drop k).filter wanted = []) :
    (l.filter wanted).length ≤ k := by
  have parts := List.filter_append (p := wanted) (l.take k) (l.drop k)
  rw [List.take_append_drop, none, List.append_nil] at parts
  rw [parts]
  exact Nat.le_trans (List.length_filter_le _ _) (List.length_take_le _ _)

/-- A reader that ended with as many entries as are wanted. -/
theorem isPrefix_of_ended (positive : 0 < bound) (takes : count ≠ 0)
    (fits : ∀ a ∈ l, wanted a = true → size a ≤ room)
    (placed : Placed wanted size count room bound l r)
    (ended : r.stopped = some true) (all : r.given.length = (l.filter wanted).length) :
    l.filter wanted <+: l ∧ (l.filter wanted).length + 1 < bound := by
  obtain ⟨index, empty⟩ := placed.ended ended
  have none : (l.drop (r.index % bound - 1)).filter wanted = [] :=
    (page_eq_nil_iff takes fun a inside => fits a (List.mem_of_mem_drop inside)).mp empty
  have few := filter_length_le_of_drop none
  have behind := placed.index
  rcases Nat.lt_or_ge r.index bound with inside | outside
  · rw [Nat.mod_eq_of_lt inside, behind, all, Nat.add_sub_cancel_left] at none
    exact ⟨isPrefix_of_drop none, by omega⟩
  · -- the index has wrapped around, and more is wanted than is in front of it
    have wrapped : r.index % bound < r.index := Nat.lt_of_lt_of_le (Nat.mod_lt _ positive) outside
    omega

/-- The wanted entries come first, and the rest is not wanted. -/
theorem filter_drop_of_isPrefix (first : l.filter wanted <+: l) {k : Nat}
    (inside : k ≤ (l.filter wanted).length) :
    (l.drop k).filter wanted = (l.filter wanted).drop k := by
  obtain ⟨rest, whole⟩ := first
  have unwanted : rest.filter wanted = [] := by
    have parts := congrArg (List.filter wanted) whole
    rw [List.filter_append, List.filter_filter] at parts
    simp only [Bool.and_self] at parts
    exact List.append_cancel_left (parts.trans (List.append_nil _).symm)
  have dropped : l.drop k = (l.filter wanted).drop k ++ rest := by
    rw [← List.drop_append_of_le_length inside, whole]
  rw [dropped, List.filter_append, unwanted, List.append_nil, List.filter_eq_self]
  intro a listed
  exact (List.mem_filter.mp (List.mem_of_mem_drop listed)).2

/-- While wanted entries are left, the next page has some of them. -/
theorem next_of_isPrefix (takes : count ≠ 0) (fits : ∀ a ∈ l, wanted a = true → size a ≤ room)
    (first : l.filter wanted <+: l) (few : (l.filter wanted).length + 1 < bound)
    (open_ : r.stopped = none) (placed : Placed wanted size count room bound l r)
    (given : r.given <+: l.filter wanted) :
    r.given = l.filter wanted ∧
        (r.next wanted size count room bound l).stopped = some true ∧
        (r.next wanted size count room bound l).given = l.filter wanted ∨
      (r.next wanted size count room bound l).stopped = none ∧
        (r.next wanted size count room bound l).given <+: l.filter wanted ∧
        r.given.length < (r.next wanted size count room bound l).given.length := by
  have inside := given.length_le
  have behind := placed.index
  have index : r.index % bound = 1 + r.given.length := by
    rw [behind]
    exact Nat.mod_eq_of_lt (by omega)
  have left : (l.drop r.given.length).filter wanted = (l.filter wanted).drop r.given.length :=
    filter_drop_of_isPrefix first inside
  have asked : r.asks wanted size count room bound l =
      page wanted size count room (l.drop r.given.length) := by
    rw [asks, index, Nat.add_sub_cancel_left]
  obtain ⟨later, whole⟩ := given
  have rest : (l.filter wanted).drop r.given.length = later := by
    rw [← whole, List.drop_left]
  unfold Reader.next
  rw [open_, if_neg (by simp), if_neg (by omega)]
  dsimp only
  split
  case isTrue empty =>
    have none : later = [] := by
      rwa [asked, page_eq_nil_iff takes fun a listed => fits a (List.mem_of_mem_drop listed), left,
        rest] at empty
    rw [none, List.append_nil] at whole
    exact .inl ⟨whole, rfl, whole⟩
  case isFalse more =>
    have front : r.asks wanted size count room bound l <+: later := by
      rw [asked, ← rest, ← left]
      exact page_isPrefix
    refine .inr ⟨rfl, ?_, ?_⟩
    · simp only [Reader.given, List.flatten_append, List.flatten_cons, List.flatten_nil,
        List.append_nil]
      rw [← whole]
      exact (List.prefix_append_right_inj _).mpr front
    · have positive := List.length_pos_of_ne_nil more
      simp only [Reader.given, List.flatten_append, List.flatten_cons, List.length_append]
      omega

/-- A reader is given every wanted entry once, in the order of the list. -/
theorem ends_of_isPrefix (takes : count ≠ 0) (fits : ∀ a ∈ l, wanted a = true → size a ≤ room)
    (first : l.filter wanted <+: l) (few : (l.filter wanted).length + 1 < bound) :
    ∃ n, ((next wanted size count room bound l)^[n] start).stopped = some true ∧
      ((next wanted size count room bound l)^[n] start).given = l.filter wanted := by
  -- the induction is on how many wanted entries are still to come
  have onward : ∀ k n, ((next wanted size count room bound l)^[n] start).stopped = none →
      ((next wanted size count room bound l)^[n] start).given <+: l.filter wanted →
      (l.filter wanted).length ≤
        ((next wanted size count room bound l)^[n] start).given.length + k →
      ∃ n, ((next wanted size count room bound l)^[n] start).stopped = some true ∧
        ((next wanted size count room bound l)^[n] start).given = l.filter wanted := by
    intro k
    induction k with
    | zero =>
      intro n open_ given left
      rcases next_of_isPrefix takes fits first few open_ (placed_iterate n) given with
        ⟨_, ended⟩ | ⟨_, given', longer⟩
      · exact ⟨n + 1, by rwa [Function.iterate_succ_apply']⟩
      · have inside := given'.length_le
        omega
    | succ k ih =>
      intro n open_ given left
      rcases next_of_isPrefix takes fits first few open_ (placed_iterate n) given with
        ⟨_, ended⟩ | ⟨open', given', longer⟩
      · exact ⟨n + 1, by rwa [Function.iterate_succ_apply']⟩
      · have again := ih (n + 1)
        rw [Function.iterate_succ_apply'] at again
        exact again open' given' (by omega)
  exact onward (l.filter wanted).length 0 rfl List.nil_prefix (Nat.le_add_left _ _)

end Reader

end Pom68k.Foundation
