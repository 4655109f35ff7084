import Pom68k.Atalk.Requests

/-! # Turns

In a step of the node each of its requests has its turn: it may be tried again, take a packet,
or end. If every request is served in its own turn, all stories go on as they should.
-/

namespace Pom68k.Atalk

open PendingReq

/-- What becomes of a request in a step, and what the node does about it. -/
abbrev Turn := PendingReq → Option PendingReq × List Output

/-- In its turn a request keeps its name and no other is spoken of. -/
def Turn.Own (turn : Turn) (r : PendingReq) : Prop :=
  (∀ r', (turn r).1 = some r' → r'.id = r.id) ∧
    ∀ o ∈ (turn r).2, ∀ i ≠ r.id, o.tries i = none ∧ o.ends i = none

variable {id : Nat} {r : PendingReq} {s : AtalkStack} {a : Atp} {src : Addr} {l : List PendingReq}

namespace Account

variable {x : Account} {now : Int} {turn : Turn}

theorem sees_turns_of_absent (own : ∀ r ∈ l, turn.Own r)
    (absent : ∀ r ∈ l, r.id ≠ id) : x.sees id now (l.flatMap fun r => (turn r).2) = x := by
  refine sees_of_silent fun o among => ?_
  obtain ⟨r, inside, said⟩ := List.mem_flatMap.mp among
  exact (own r inside).2 o said id (absent r inside).symm

theorem sees_turns (own : ∀ r ∈ l, turn.Own r) (apart : (l.map PendingReq.id).Nodup)
    (inside : r ∈ l) :
    x.sees r.id now (l.flatMap fun r => (turn r).2) = x.sees r.id now (turn r).2 := by
  obtain ⟨front, back, rfl⟩ := List.append_of_mem inside
  rw [List.map_append, List.nodup_append] at apart
  obtain ⟨_, later, across⟩ := apart
  rw [List.flatMap_append, List.flatMap_cons, sees_append, sees_append, sees_turns_of_absent,
    sees_turns_of_absent]
  · exact fun r' among => own r' (List.mem_append_left _ among)
  · exact fun r' among => across _ (List.mem_map_of_mem among) _ (List.mem_cons_self ..)
  · exact fun r' among => own r' (List.mem_append_right _ (List.mem_cons_of_mem _ among))
  · exact fun r' among same => (List.nodup_cons.mp later).1 (same ▸ List.mem_map_of_mem among)

end Account

/-- What a turn has to keep for a request. -/
def Turn.Serves (turn : Turn) (cpuHz now : Int) (r : PendingReq) (x : Account) : Prop :=
  match (turn r).1 with
  | some r' => Standing cpuHz r' (x.sees r.id now (turn r).2)
  | none => Settled cpuHz (x.sees r.id now (turn r).2)

/-- If every request is served in its turn, all stories are kept. -/
theorem Kept.turns {w w' : Booked} (kept : Kept w) (turn : Turn) (known : Book) (now : Int)
    (own : ∀ r ∈ w.stack.requests, turn.Own r)
    (serves : ∀ r ∈ w.stack.requests, turn.Serves w.stack.cpuHz now r (known r.id))
    (overhears : ∀ id, (w.book id).Overhears (known id))
    (requests : w'.stack.requests = w.stack.requests.filterMap fun r => (turn r).1)
    (made : w'.stack.made = w.stack.made) (cpuHz : w'.stack.cpuHz = w.stack.cpuHz)
    (book : ∀ id, w'.book id =
      (known id).sees id now (w.stack.requests.flatMap fun r => (turn r).2)) : Kept w' := by
  have stays : ∀ r' ∈ w'.stack.requests, ∃ r ∈ w.stack.requests, (turn r).1 = some r' ∧
      r'.id = r.id := by
    intro r' inside
    rw [requests] at inside
    obtain ⟨r, inside, moved⟩ := List.mem_filterMap.mp inside
    exact ⟨r, inside, moved, (own r inside).1 r' moved⟩
  constructor
  case apart =>
    have fewer : (w'.stack.requests.map PendingReq.id).Sublist
        (w.stack.requests.map PendingReq.id) := by
      rw [requests]
      generalize w.stack.requests = l at own ⊢
      induction l with
      | nil => exact .slnil
      | cons r rest ih =>
        have rest := ih (List.forall_mem_cons.mp own).2
        rw [List.filterMap_cons]
        split
        case h_1 => exact rest.cons _
        case h_2 r' moved =>
          rw [List.map_cons, (own r (List.mem_cons_self ..)).1 r' moved]
          exact rest.cons_cons _
    exact kept.apart.sublist fewer
  case below =>
    intro r' inside
    obtain ⟨r, inside, _, named⟩ := stays r' inside
    rw [named, made]
    exact kept.below r inside
  case blank =>
    intro id above
    rw [made] at above
    have absent : ∀ r ∈ w.stack.requests, r.id ≠ id := fun r inside =>
      ((kept.below r inside).trans_le above).ne
    rw [book, Account.sees_turns_of_absent own absent]
    exact (overhears id).blank (kept.blank id above)
  case standing =>
    intro r' inside
    obtain ⟨r, inside, moved, named⟩ := stays r' inside
    have served := serves r inside
    rw [Turn.Serves, moved] at served
    rwa [named, cpuHz, book, Account.sees_turns own kept.apart inside]
  case settled =>
    intro id absent
    rw [cpuHz, book]
    by_cases present : ∃ r ∈ w.stack.requests, r.id = id
    · obtain ⟨r, inside, rfl⟩ := present
      have served := serves r inside
      rw [Account.sees_turns own kept.apart inside]
      rw [Turn.Serves] at served
      cases moved : (turn r).1 with
      | none => rwa [moved] at served
      | some r' =>
        have stayed : r' ∈ w'.stack.requests := by
          rw [requests]
          exact List.mem_filterMap.mpr ⟨r, inside, moved⟩
        exact absurd ((own r inside).1 r' moved) (absent r' stayed)
    · have absent : ∀ r ∈ w.stack.requests, r.id ≠ id := fun r inside same =>
        present ⟨r, inside, same⟩
      rw [Account.sees_turns_of_absent own absent]
      exact (overhears id).settled (kept.settled id absent)

/-- A step that passes all requests by. -/
def Turn.pass : Turn := fun r => (some r, [])

theorem Turn.own_pass (r : PendingReq) : Turn.pass.Own r := by
  refine ⟨?_, nofun⟩
  rintro _ ⟨⟩
  rfl

/-! ## Tries -/

theorem AtalkStack.own_retryOne (s : AtalkStack) (r : PendingReq) : Turn.Own s.retryOne r := by
  rw [Turn.Own, retryOne]
  split_ifs
  · exact Turn.own_pass r
  · simp +contextual [Output.tries, Output.ends, eq_comm]
  · refine ⟨?_, ?_⟩
    · rintro _ ⟨⟩
      rfl
    · simp +contextual [Output.tries, Output.ends, eq_comm]

theorem AtalkStack.serves_retryOne {x : Account}
    (standing : Standing s.cpuHz r x) : Turn.Serves s.retryOne s.cpuHz s.now r x := by
  obtain ⟨last, latest, due⟩ := standing.retry
  have tries := standing.tries
  have few := standing.few
  rw [Turn.Serves, retryOne]
  split_ifs with early ended
  · simpa using standing
  · rw [Account.sees_done, standing.ends]
    exact fun q asked => ⟨_, rfl, rfl, by dsimp only; omega, last, latest, by omega⟩
  · rw [Account.sees_tried]
    obtain ⟨q, asked, dst, tid, some_, collects⟩ := standing.asked
    refine ⟨⟨q, asked, dst, tid, some_, collects.room, collects.got, collects.last⟩,
      standing.ends, ?_, ?_, s.now, List.getLast?_concat, rfl⟩
    · simp [tries]
    · dsimp only
      omega

/-! ## Packets -/

/-- A request goes on with the packet, or ends. -/
theorem AtalkStack.collect_cases (s : AtalkStack) (a : Atp) (r : PendingReq) :
    s.collect a r = (some (r.accept a), []) ∨
      (r.accept a).need = 0#8 ∧ ∃ frames, s.collect a r =
        (none, List.map Output.frame frames ++ [.done r.id true (r.accept a).result]) := by
  rw [collect]
  split_ifs with ended xo
  · exact .inr ⟨ended, _, rfl⟩
  · exact .inr ⟨ended, [], rfl⟩
  · exact .inl rfl

theorem AtalkStack.own_collect (s : AtalkStack) (a : Atp) (r : PendingReq) :
    Turn.Own (s.collect a) r := by
  rcases s.collect_cases a r with on | ⟨_, frames, ended⟩
  · rw [Turn.Own, on]
    refine ⟨?_, nofun⟩
    rintro _ ⟨⟩
    rfl
  · rw [Turn.Own, ended]
    refine ⟨nofun, fun o said i other => ?_⟩
    rcases List.mem_append.mp said with said | said
    · obtain ⟨f, _, rfl⟩ := List.mem_map.mp said
      exact ⟨rfl, rfl⟩
    · cases List.mem_singleton.mp said
      exact ⟨rfl, if_neg other.symm⟩

theorem AtalkStack.serves_collect {x : Account} {q : Asked} (standing : Standing s.cpuHz r x)
    (asked : x.asked = some q) (fits : r.expects src a = true) (body : 4 ≤ a.body.length)
    (inside : a.seq < q.count)
    (once : ∀ m : Nat, r.respCount = m + 1 → (a.eom = true → a.seq ≤ m) ∧ (a.seq = m → a.eom = true))
    (now : Int) :
    Turn.Serves (s.collect a) s.cpuHz now r (x.hears src a) := by
  obtain ⟨q', asked', dst, tid, some_, collects⟩ := standing.asked
  cases asked.symm.trans asked'
  have told : x.hears src a = { x with heard := x.heard ++ [⟨a.seq, a.eom, a.body⟩] } := by
    have expected : q.fits src a = true := by
      simpa [Asked.fits, PendingReq.expects, dst, tid] using fits
    rw [Account.hears, asked, Option.any_some, if_pos expected]
  have collected := collects.accept inside once body
  rw [told, Turn.Serves]
  rcases s.collect_cases a r with on | ⟨enough, frames, ended⟩
  · rw [on]
    rw [Account.sees_nil]
    exact ⟨⟨q, asked, dst, tid, some_, collected⟩, standing.ends, standing.tries, standing.few,
      standing.retry⟩
  · rw [ended]
    rw [Account.sees_frames, Account.sees_done, standing.ends]
    rintro _ same
    cases asked.symm.trans same
    exact ⟨_, rfl, collected.complete some_ enough⟩

/-- The turn of a packet: it is for one request and passes the others by. -/
def AtalkStack.packetTurn (s : AtalkStack) (a : Atp) (id : Nat) : Turn := fun r =>
  if r.id = id then s.collect a r else (some r, [])

theorem AtalkStack.handleTResp_of_none
    (none_ : l.find? (·.expects src a) = none) :
    s.handleTResp src a l = (l, []) := by
  induction l with
  | nil => rfl
  | cons r rest ih =>
    rw [List.find?_cons] at none_
    split at none_
    · cases none_
    case h_2 other =>
      rw [handleTResp, if_neg (by simp [other]), ih none_]

theorem AtalkStack.packetTurn_of_absent (absent : ∀ x ∈ l, x.id ≠ id) :
    (l.filterMap fun x => (s.packetTurn a id x).1) = l ∧
      (l.flatMap fun x => (s.packetTurn a id x).2) = [] := by
  have pass : ∀ x ∈ l, s.packetTurn a id x = (some x, []) := fun x inside =>
    if_neg (absent x inside)
  refine ⟨?_, List.flatMap_eq_nil_iff.mpr fun x inside => by rw [pass x inside]⟩
  rw [List.filterMap_congr fun x inside => congrArg Prod.fst (pass x inside)]
  exact List.filterMap_some

theorem AtalkStack.handleTResp_of_some (apart : (l.map PendingReq.id).Nodup)
    (found : l.find? (·.expects src a) = some r) : s.handleTResp src a l =
      (l.filterMap fun x => (s.packetTurn a r.id x).1,
        l.flatMap fun x => (s.packetTurn a r.id x).2) := by
  induction l with
  | nil => cases found
  | cons x rest ih =>
    obtain ⟨fresh, apart⟩ := List.nodup_cons.mp apart
    rw [List.find?_cons] at found
    rw [handleTResp, List.filterMap_cons, List.flatMap_cons]
    split at found
    case h_1 expects =>
      cases found
      have others : ∀ y ∈ rest, y.id ≠ r.id := fun y inside same =>
        fresh (same ▸ List.mem_map_of_mem inside)
      have here : s.packetTurn a r.id r = s.collect a r := if_pos rfl
      rw [if_pos expects, here, (packetTurn_of_absent others).1, (packetTurn_of_absent others).2,
        List.append_nil]
      cases (s.collect a r).1 with
      | none => rfl
      | some y => rfl
    case h_2 other =>
      have inside : r ∈ rest := List.mem_of_find?_eq_some found
      have apart' : x.id ≠ r.id := fun same => fresh (same ▸ List.mem_map_of_mem inside)
      have here : s.packetTurn a r.id x = (some x, []) := if_neg apart'
      rw [if_neg (by simp [other]), ih apart found, here]
      rfl

theorem AtalkStack.own_packetTurn (s : AtalkStack) (a : Atp) (id : Nat) (r : PendingReq) :
    (s.packetTurn a id).Own r := by
  by_cases here : r.id = id
  · have := s.own_collect a r
    rwa [Turn.Own, ← show s.packetTurn a id r = s.collect a r from if_pos here] at this
  · have := Turn.own_pass r
    rwa [Turn.Own, Turn.pass, ← show s.packetTurn a id r = (some r, []) from if_neg here] at this

end Pom68k.Atalk
