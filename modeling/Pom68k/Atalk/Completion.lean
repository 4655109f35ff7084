import Pom68k.Foundation.Runs
import Pom68k.Atalk.Turns

/-! # Requests end once

Every request of the node ends once, whatever it hears and as long as its clock runs. If
responders keep to what they are asked, it ends with the packets of the response in their
order, or without any after its fifth try.
-/

namespace Pom68k.Atalk

open Foundation

theorem Atp.four_le_of_parse {p : List Octet} {a : Atp} (parsed : Atp.parse p = some a) :
    4 ≤ a.body.length := by
  fun_cases Atp.parse p
  case case2 long =>
    rw [Atp.parse, if_neg long] at parsed
    cases parsed
    exact Nat.le_of_not_lt long
  all_goals simp_all [Atp.parse]

variable {s : AtalkStack} {q : Asked} {bytes : List Octet}

theorem AtalkStack.four_le_of_heard {d : Ddp} {a : Atp} (heard : s.heard bytes = some (d, a)) :
    4 ≤ a.body.length := by
  obtain ⟨_, _, rest⟩ := Option.bind_eq_some_iff.mp heard
  split at rest
  · obtain ⟨_, parsed, same⟩ := Option.map_eq_some_iff.mp rest
    cases same
    exact Atp.four_le_of_parse parsed
  · cases rest

theorem Output.silent_frame {frames : List (List Octet)} {o : Output}
    (said : o ∈ List.map Output.frame frames) (i : Nat) : o.tries i = none ∧ o.ends i = none := by
  obtain ⟨f, _, rfl⟩ := List.mem_map.mp said
  exact ⟨rfl, rfl⟩

namespace AtalkStack

theorem respond_keeps (s : AtalkStack) (id : Nat) (pkts : List Packet) :
    (s.respond id pkts).1.requests = s.requests ∧ (s.respond id pkts).1.made = s.made ∧
      (s.respond id pkts).1.cpuHz = s.cpuHz ∧
      ∃ frames, (s.respond id pkts).2 = List.map .frame frames := by
  fun_cases AtalkStack.respond s id pkts
  case case3 => exact ⟨rfl, rfl, rfl, _, rfl⟩
  all_goals exact ⟨rfl, rfl, rfl, [], rfl⟩

/-- A transaction to answer is nothing to the requests. -/
theorem handleTReq_keeps (s : AtalkStack) (src : Addr) (dstSock : Octet) (a : Atp)
    (reaction : Reaction) :
    (s.handleTReq src dstSock a reaction).1.requests = s.requests ∧
      (s.handleTReq src dstSock a reaction).1.made = s.made ∧
      (s.handleTReq src dstSock a reaction).1.cpuHz = s.cpuHz ∧
      ∀ o ∈ (s.handleTReq src dstSock a reaction).2, ∀ i, o.tries i = none ∧ o.ends i = none := by
  fun_cases AtalkStack.handleTReq s src dstSock a reaction
  · exact ⟨rfl, rfl, rfl, fun o said => Output.silent_frame said⟩
  · exact ⟨rfl, rfl, rfl, nofun⟩
  · cases reaction with
    | respond pkts =>
      obtain ⟨requests, made, cpuHz, frames, sent⟩ :=
        respond_keeps (s.invoke src dstSock a .keep).1 s.txns.length pkts
      refine ⟨requests, made, cpuHz, fun o said i => ?_⟩
      rcases List.mem_cons.mp said with rfl | said
      · exact ⟨rfl, rfl⟩
      · exact Output.silent_frame (sent ▸ said) i
    | keep | ignore =>
      refine ⟨rfl, rfl, rfl, fun o said i => ?_⟩
      cases List.mem_singleton.mp said
      exact ⟨rfl, rfl⟩

theorem step_cpuHz (s : AtalkStack) (e : Event) : (s.step e).1.cpuHz = s.cpuHz := by
  cases e with
  | frame bytes reaction =>
    rw [step]
    cases heard : s.heard bytes with
    | none =>
      obtain ⟨seen, router, frames, moved⟩ := onGuestFrame_of_not_heard heard reaction
      rw [moved]
      rfl
    | some packet =>
      rw [onGuestFrame_of_heard heard]
      split_ifs
      · exact (handleTReq_keeps s _ _ _ reaction).2.2.1
      all_goals rfl
  | tick now runProtocols =>
    cases runProtocols with
    | true =>
      obtain ⟨seen, router, due, frames, swept, rfl, moved⟩ := tick_eq s now
      rw [step, moved]
      rfl
    | false => rfl
  | reply id pkts => exact (respond_keeps s id pkts).2.2.1
  | request dst srcSock req maxResp xo =>
    rw [step, atpRequest]
    split_ifs <;> rfl

end AtalkStack

namespace Kept

open AtalkStack Booked

variable {w : Booked}

theorem overhears_frame (w : Booked) (bytes : List Octet) (reaction : Reaction) (id : Nat) :
    (w.book id).Overhears (w.notice (.frame bytes reaction) id) := by
  rw [notice]
  split
  · split
    · exact Account.overhears_hears ..
    · exact .same
  · exact .same

/-- A step that passes all requests by, whatever is heard. -/
theorem pass (kept : Kept w) {e : Event} (overhears : ∀ id, (w.book id).Overhears (w.notice e id))
    (requests : (w.stack.step e).1.requests = w.stack.requests)
    (made : (w.stack.step e).1.made = w.stack.made)
    (silent : ∀ o ∈ (w.stack.step e).2, ∀ i, o.tries i = none ∧ o.ends i = none) :
    Kept (w.step e) := by
  refine kept.turns Turn.pass (w.notice e) 0 (fun r _ => Turn.own_pass r) (fun r inside => ?_)
    overhears ?_ made (step_cpuHz w.stack e) fun id => ?_
  · simp only [Turn.Serves, Turn.pass, Account.sees_nil]
    exact (overhears r.id).standing (kept.standing r inside)
  · exact requests.trans List.filterMap_some.symm
  · have quiet : (w.stack.requests.flatMap fun r => (Turn.pass r).2) = [] :=
      List.flatMap_eq_nil_iff.mpr fun _ _ => rfl
    rw [quiet, Account.sees_nil]
    exact Account.sees_of_silent fun o said => silent o said id

theorem packet (kept : Kept w) {reaction : Reaction} {d : Ddp} {a : Atp}
    (orderly : w.Orderly (.frame bytes reaction)) (heard : w.stack.heard bytes = some (d, a))
    (answers : a.func = kAtpTResp) : Kept (w.step (.frame bytes reaction)) := by
  have other : kAtpTResp ≠ kAtpTReq := by decide
  have moved : w.stack.step (.frame bytes reaction) =
      ({ w.stack with requests := (w.stack.handleTResp d.src a w.stack.requests).1 },
        (w.stack.handleTResp d.src a w.stack.requests).2) := by
    rw [AtalkStack.step, onGuestFrame_of_heard heard, answers, if_neg other, if_pos rfl]
  cases found : w.stack.requests.find? (·.expects d.src a) with
  | none =>
    rw [handleTResp_of_none found] at moved
    refine kept.pass (overhears_frame w bytes reaction) ?_ ?_ ?_ <;> simp [moved]
  | some r =>
    rw [handleTResp_of_some kept.apart found] at moved
    have inside : r ∈ w.stack.requests := List.mem_of_find?_eq_some found
    have expects : r.expects d.src a = true := by simpa using List.find?_some found
    refine kept.turns (w.stack.packetTurn a r.id) (w.notice (.frame bytes reaction)) w.stack.now
      (fun x _ => own_packetTurn _ _ _ x) (fun x among => ?_)
      (overhears_frame w bytes reaction) ?_ ?_ ?_ fun id => ?_
    · by_cases here : x.id = r.id
      · have same : x = r := List.inj_on_of_nodup_map kept.apart among inside here
        subst same
        have standing := kept.standing x inside
        obtain ⟨q, asked, _⟩ := standing.asked
        obtain ⟨below, once⟩ := orderly d a x q heard answers found asked
        have served := serves_collect standing asked expects (four_le_of_heard heard) below once
          w.stack.now
        have known : w.notice (.frame bytes reaction) x.id = (w.book x.id).hears d.src a := by
          simp only [notice, heard, answers, if_true]
        rwa [known, Turn.Serves, show w.stack.packetTurn a x.id x = w.stack.collect a x from
          if_pos rfl]
      · rw [Turn.Serves, show w.stack.packetTurn a r.id x = (some x, []) from if_neg here]
        simp only [Account.sees_nil]
        exact (overhears_frame w bytes reaction x.id).standing (kept.standing x among)
    all_goals simp [Booked.step, moved]

/-- Others are not spoken of when a request is made. -/
theorem request_book_of_ne (w : Booked) (dst : Addr) (srcSock : Octet) (req : Packet)
    (maxResp : Int) (xo : Bool) {id : Nat} (other : id ≠ w.stack.made) :
    (w.step (.request dst srcSock req maxResp xo)).book id = w.book id := by
  have known : w.notice (.request dst srcSock req maxResp xo) id = w.book id :=
    if_neg fun both => other both.1
  simp only [Booked.step, known]
  refine Account.sees_of_silent fun o said => ?_
  have named : o.tries id = none ∧ o.ends id = none := by
    simp only [AtalkStack.step, atpRequest] at said
    split at said <;> simp at said <;> grind [Output.tries, Output.ends]
  exact named

/-- Whatever a new request leaves behind, the others are kept. -/
theorem grown {w' : Booked} (kept : Kept w) (new : List PendingReq)
    (requests : w'.stack.requests = w.stack.requests ++ new)
    (made : w'.stack.made = w.stack.made + 1) (cpuHz : w'.stack.cpuHz = w.stack.cpuHz)
    (book : ∀ id ≠ w.stack.made, w'.book id = w.book id) (one : (new.map PendingReq.id).Nodup)
    (standing : ∀ r ∈ new, r.id = w.stack.made ∧ Standing w.stack.cpuHz r (w'.book w.stack.made))
    (settled : new = [] → Settled w.stack.cpuHz (w'.book w.stack.made)) : Kept w' := by
  constructor <;> simp only [requests, made, cpuHz]
  case apart =>
    rw [List.map_append]
    refine kept.apart.append one fun i old inside => ?_
    obtain ⟨x, among, rfl⟩ := List.mem_map.mp old
    obtain ⟨r, inside, same⟩ := List.mem_map.mp inside
    exact (kept.below x among).ne (same.symm.trans (standing r inside).1)
  case below =>
    intro x inside
    rcases List.mem_append.mp inside with old | new
    · exact Nat.lt_succ_of_lt (kept.below x old)
    · exact Nat.lt_succ_of_le (standing x new).1.le
  case blank =>
    intro id above
    rw [book id (Nat.ne_of_gt above)]
    exact kept.blank id (Nat.le_of_succ_le above)
  case standing =>
    intro x inside
    rcases List.mem_append.mp inside with old | new
    · rw [book x.id (kept.below x old).ne]
      exact kept.standing x old
    · rw [(standing x new).1]
      exact (standing x new).2
  case settled =>
    intro id absent
    by_cases same : id = w.stack.made
    · rw [same]
      refine settled (List.eq_nil_iff_forall_not_mem.mpr fun r inside => ?_)
      exact absent r (List.mem_append_right _ inside) ((standing r inside).1.trans same.symm)
    · rw [book id same]
      exact kept.settled id fun x inside => absent x (List.mem_append_left _ inside)

theorem getLsbD_wanted (maxResp : Int) (i : Nat) :
    (wanted maxResp).getLsbD i = decide (i < (min maxResp 8).toNat) := by
  rw [wanted, BitVec.getLsbD_ofNat]
  grind

theorem request (kept : Kept w) (dst : Addr) (srcSock : Octet) (req : Packet) (maxResp : Int)
    (xo : Bool) : Kept (w.step (.request dst srcSock req maxResp xo)) := by
  have book (id : Nat) (other : id ≠ w.stack.made) :=
    request_book_of_ne w dst srcSock req maxResp xo other
  rcases lt_or_ge 0 maxResp with some_ | none_
  · have count : 0 < (min maxResp 8).toNat := by omega
    have story : (w.step (.request dst srcSock req maxResp xo)).book w.stack.made =
        { asked := some ⟨dst, w.stack.nextTid, (min maxResp 8).toNat⟩
          tries := [w.stack.now] } := by
      simp [Booked.step, notice, AtalkStack.step, atpRequest, some_, Int.not_le.mpr some_,
        kept.blank _ le_rfl]
    refine kept.grown [⟨w.stack.made, w.stack.nextTid, dst, srcSock, padded req,
      wanted maxResp, xo, 1, w.stack.now + w.stack.cpuHz, [], -1⟩] ?_ ?_ ?_ book
      (List.nodup_singleton _) (fun r inside => ?_) nofun
    case refine_4 =>
      cases List.mem_singleton.mp inside
      rw [story]
      refine ⟨rfl, ⟨_, rfl, rfl, rfl, count, Nat.zero_le _, fun i inside _ there => ?_, .inl rfl⟩,
        rfl, rfl, Nat.le_add_left 1 4, _, rfl, rfl⟩
      rw [getLsbD_wanted, decide_eq_false_iff_not] at there
      exact absurd inside there
    all_goals simp [Booked.step, AtalkStack.step, atpRequest, Int.not_le.mpr some_]
  · refine kept.grown [] ?_ ?_ ?_ book List.nodup_nil (List.forall_mem_nil _) ?_
    case refine_4 =>
      intro _ q asked
      simp [Booked.step, Account.sees, notice, kept.blank _ le_rfl, Int.not_lt.mpr none_] at asked
    all_goals simp [Booked.step, AtalkStack.step, atpRequest, none_]

theorem tick (kept : Kept w) (now : Int) : Kept (w.step (.tick now true)) := by
  obtain ⟨seen, router, due, frames, swept, rfl, moved⟩ := tick_eq w.stack now
  refine kept.turns
    (retryOne (sweep { w.stack.routed (w.stack.brings (.tick now true)) seen router with
      nextRtmp := due, now := now }))
    w.book now (fun r _ => own_retryOne _ r) (fun r inside => ?_) (fun _ => .same) ?_ ?_ ?_
    fun id => ?_
  · exact serves_retryOne (kept.standing r inside)
  · simp only [Booked.step, AtalkStack.step, moved, retry]
  · simp only [Booked.step, AtalkStack.step, moved]
    rfl
  · simp only [Booked.step, AtalkStack.step, moved]
    rfl
  · simp only [Booked.step, AtalkStack.step, moved, Account.sees_frames]
    rfl

theorem step (kept : Kept w) {e : Event} (orderly : w.Orderly e) : Kept (w.step e) := by
  cases e with
  | frame bytes reaction =>
    have overhears := overhears_frame w bytes reaction
    cases heard : w.stack.heard bytes with
    | none =>
      obtain ⟨seen, router, frames, moved⟩ := onGuestFrame_of_not_heard heard reaction
      refine kept.pass overhears ?_ ?_ ?_ <;> rw [AtalkStack.step, moved]
      · rfl
      · rfl
      · exact fun o said => Output.silent_frame said
    | some packet =>
      obtain ⟨d, a⟩ := packet
      have moved := onGuestFrame_of_heard heard reaction
      by_cases answers : a.func = kAtpTResp
      · exact kept.packet orderly heard answers
      rw [if_neg answers] at moved
      by_cases asks : a.func = kAtpTReq
      · obtain ⟨requests, made, _, silent⟩ :=
          handleTReq_keeps w.stack d.src d.dstSock a reaction
        rw [if_pos asks] at moved
        refine kept.pass overhears ?_ ?_ ?_ <;> rw [AtalkStack.step, moved] <;> assumption
      · rw [if_neg asks] at moved
        refine kept.pass overhears ?_ ?_ ?_ <;> rw [AtalkStack.step, moved] <;> split <;>
          first | rfl | exact nofun
  | tick now runProtocols =>
    cases runProtocols with
    | true => exact kept.tick now
    | false => exact kept.pass (fun _ => .same) rfl rfl nofun
  | reply id pkts =>
    obtain ⟨requests, made, _, frames, sent⟩ := respond_keeps w.stack id pkts
    exact kept.pass (fun _ => .same) requests made fun o said => Output.silent_frame (sent ▸ said)
  | request dst srcSock req maxResp xo => exact kept.request dst srcSock req maxResp xo

end Kept

/-! ## Stories grow -/

namespace Booked

open AtalkStack

variable {w : Booked} {id : Nat}

theorem notice_tries (w : Booked) (e : Event) (id : Nat) :
    (w.notice e id).tries = (w.book id).tries ∧ (w.notice e id).ends = (w.book id).ends := by
  cases e with
  | frame bytes reaction => exact (Kept.overhears_frame w bytes reaction id).rest.2
  | request dst srcSock req maxResp xo =>
    dsimp only [notice]
    split <;> exact ⟨rfl, rfl⟩
  | _ => exact ⟨rfl, rfl⟩

theorem grows (w : Booked) (e : Event) (id : Nat) :
    (w.book id).tries <+: ((w.step e).book id).tries ∧
      (w.book id).ends <+: ((w.step e).book id).ends := by
  obtain ⟨tries, ends⟩ := w.notice_tries e id
  rw [← tries, ← ends]
  exact ⟨List.prefix_append .., List.prefix_append ..⟩

/-- What was asked stays. -/
theorem asked_step (kept : Kept w) (e : Event) (asked : (w.book id).asked = some q) :
    ((w.step e).book id).asked = some q := by
  have known : (w.notice e id).asked = some q := by
    cases e with
    | frame bytes reaction =>
      exact (Kept.overhears_frame w bytes reaction id).rest.1.trans asked
    | request dst srcSock req maxResp xo =>
      have old : id ≠ w.stack.made := fun new => by
        rw [kept.blank id new.ge] at asked
        cases asked
      dsimp only [notice]
      rw [if_neg fun both => old both.1, asked]
    | _ => exact asked
  exact known

/-- A request whose time is up ends or is tried once more. -/
theorem retryOne_due {r : PendingReq} (due : r.nextRetry ≤ s.now) (x : Account) (now : Int) :
    (x.sees r.id now (s.retryOne r).2).ends ≠ [] ∨
      x.tries.length < (x.sees r.id now (s.retryOne r).2).tries.length := by
  rw [retryOne, if_neg (Int.not_lt.mpr due)]
  split
  · simp
  · simp

theorem tick_due (kept : Kept w) {r : PendingReq} (inside : r ∈ w.stack.requests) {now : Int}
    (due : r.nextRetry ≤ now) :
    ((w.step (.tick now true)).book r.id).ends ≠ [] ∨
      (w.book r.id).tries.length < ((w.step (.tick now true)).book r.id).tries.length := by
  obtain ⟨seen, router, next, frames, swept, rfl, moved⟩ := tick_eq w.stack now
  have story : (w.step (.tick now true)).book r.id = (w.book r.id).sees r.id now
      (retryOne (sweep { w.stack.routed (w.stack.brings (.tick now true)) seen router with
        nextRtmp := next, now := now }) r).2 := by
    rw [← Account.sees_turns (fun r _ => own_retryOne _ r) kept.apart inside]
    simp only [Booked.step, AtalkStack.step, moved, Account.sees_frames]
    rfl
  rw [story]
  exact retryOne_due due _ now

end Booked

/-! ## Runs -/

namespace Booked

/-- The node after so many events of a stream. -/
def after (w : Booked) (more : Nat → Event) (n : Nat) : Booked :=
  run step w ((List.range n).map more)

variable {w : Booked} {more : Nat → Event} {id : Nat}

theorem after_succ (w : Booked) (more : Nat → Event) (n : Nat) :
    w.after more (n + 1) = (w.after more n).step (more n) := by
  rw [after, List.range_succ, List.map_append, run_append]
  rfl

theorem kept_after (kept : Kept w)
    (orderly : ∀ n, Along step Orderly w ((List.range n).map more)) (n : Nat) :
    Kept (w.after more n) :=
  (orderly n).invariant (fun _ _ orderly kept => Kept.step kept orderly) kept

theorem cpuHz_after (w : Booked) (more : Nat → Event) (n : Nat) :
    (w.after more n).stack.cpuHz = w.stack.cpuHz := by
  induction n with
  | zero => rfl
  | succ n ih => rw [after_succ, ← ih]; exact AtalkStack.step_cpuHz _ _

theorem grows_after (w : Booked) (more : Nat → Event) (id : Nat) {n m : Nat} (later : n ≤ m) :
    ((w.after more n).book id).tries <+: ((w.after more m).book id).tries ∧
      ((w.after more n).book id).ends <+: ((w.after more m).book id).ends := by
  induction m, later using Nat.le_induction with
  | base => exact ⟨List.prefix_rfl, List.prefix_rfl⟩
  | succ m _ ih =>
    rw [after_succ]
    have next := grows (w.after more m) (more m) id
    exact ⟨ih.1.trans next.1, ih.2.trans next.2⟩

theorem asked_after (kept : Kept w)
    (orderly : ∀ n, Along step Orderly w ((List.range n).map more))
    (asked : (w.book id).asked = some q) (n : Nat) :
    ((w.after more n).book id).asked = some q := by
  induction n with
  | zero => exact asked
  | succ n ih =>
    rw [after_succ]
    exact asked_step (kept_after kept orderly n) _ ih

end Booked

open Booked

/-- A request that has not ended is on its way. -/
theorem Kept.exists_standing {w : Booked} (kept : Kept w) {id : Nat}
    (asked : (w.book id).asked = some q) (going : (w.book id).ends = []) :
    ∃ r ∈ w.stack.requests, r.id = id ∧ Standing w.stack.cpuHz r (w.book id) := by
  by_contra absent
  have gone : ∀ r ∈ w.stack.requests, r.id ≠ id := by
    rintro r inside rfl
    exact absent ⟨r, inside, rfl, kept.standing r inside⟩
  obtain ⟨e, once, _⟩ := kept.settled id gone q asked
  rw [going] at once
  cases once

section

variable {w : Booked} (kept : Kept w) {more : Nat → Event}
  (orderly : ∀ n, Along Booked.step Orderly w ((List.range n).map more))
  (clock : ∀ n time, ∃ m ≥ n, ∃ now ≥ time, more m = .tick now true) {id : Nat} {q : Asked}
  (asked : (w.book id).asked = some q)

include kept orderly clock asked

/-- As long as the clock runs, a request on its way is tried again or ends. -/
theorem Kept.progress (n : Nat) :
    ∃ m, ((w.after more m).book id).ends ≠ [] ∨
      ((w.after more n).book id).tries.length < ((w.after more m).book id).tries.length := by
  by_contra stuck
  simp only [not_exists, not_or, not_not, Nat.not_lt] at stuck
  have asked := asked_after kept orderly asked
  have kept := kept_after kept orderly
  obtain ⟨r, _, _, standing⟩ := (kept n).exists_standing (asked n) (stuck n).1
  obtain ⟨last, latest, _⟩ := standing.retry
  obtain ⟨m, later, now, due, tick⟩ := clock n (last + w.stack.cpuHz)
  obtain ⟨r', inside, named, standing'⟩ := (kept m).exists_standing (asked m) (stuck m).1
  -- nothing was tried between, so the time of the next try is the same
  have same : ((w.after more m).book id).tries = ((w.after more n).book id).tries :=
    ((grows_after w more id later).1.eq_of_length_le (stuck m).2).symm
  obtain ⟨last', latest', next⟩ := standing'.retry
  rw [same, latest, Option.some.injEq] at latest'
  rw [← latest', cpuHz_after] at next
  have moved := tick_due (kept m) inside (next.trans_le due)
  rw [named, ← tick, ← after_succ] at moved
  rcases moved with ended | tried
  · exact ended (stuck (m + 1)).1
  · rw [same] at tried
    exact absurd (stuck (m + 1)).2 (Nat.not_le.mpr tried)

/-- As long as the clock runs, every request comes to its end. -/
theorem Kept.ends : ∃ n, ((w.after more n).book id).ends ≠ [] := by
  by_contra stuck
  simp only [not_exists, not_not] at stuck
  have tried : ∀ k, ∃ n, k ≤ ((w.after more n).book id).tries.length := by
    intro k
    induction k with
    | zero => exact ⟨0, Nat.zero_le _⟩
    | succ k ih =>
      obtain ⟨n, sofar⟩ := ih
      obtain ⟨m, ended | again⟩ := Kept.progress kept orderly clock asked n
      · exact absurd (stuck m) ended
      · exact ⟨m, sofar.trans_lt again⟩
  obtain ⟨n, six⟩ := tried 6
  obtain ⟨r, _, _, standing⟩ := (kept_after kept orderly n).exists_standing
    (asked_after kept orderly asked n) (stuck n)
  have few := standing.few
  have counted := standing.tries
  omega

end

/-- Before anything is asked, all is kept. -/
theorem kept_fresh (fresh : s.requests = []) : Kept ⟨s, fun _ => {}⟩ := by
  constructor <;> simp [fresh, Settled]

/-- If responders keep to what they are asked, a request has ended at most once, with all
packets of its response or after the fifth try, and it does end if the clock runs. -/
theorem request_ends_once {s : AtalkStack} (fresh : s.requests = []) {events : List Event}
    (orderly : Along Booked.step Orderly ⟨s, fun _ => {}⟩ events) {w : Booked}
    (reached : run Booked.step ⟨s, fun _ => {}⟩ events = w) {id : Nat} {q : Asked}
    (asked : (w.book id).asked = some q) :
    ((w.book id).ends = [] ∨ ∃ e, (w.book id).ends = [e] ∧ Ended w.stack.cpuHz q (w.book id) e) ∧
    ∀ more : Nat → Event, (∀ n, Along Booked.step Orderly w ((List.range n).map more)) →
      (∀ n time, ∃ m ≥ n, ∃ now ≥ time, more m = .tick now true) →
      ∃ n, ((w.after more n).book id).ends.length = 1 := by
  have kept : Kept w := reached ▸
    orderly.invariant (fun _ _ orderly kept => Kept.step kept orderly) (kept_fresh fresh)
  have once : ∀ {w : Booked}, Kept w → (w.book id).asked = some q → (w.book id).ends ≠ [] →
      ∃ e, (w.book id).ends = [e] ∧ Ended w.stack.cpuHz q (w.book id) e := by
    intro w kept asked ended
    refine kept.settled id (fun r inside named => ended ?_) q asked
    rw [← named]
    exact (kept.standing r inside).ends
  refine ⟨or_iff_not_imp_left.mpr (once kept asked), fun more orderly clock => ?_⟩
  obtain ⟨n, ended⟩ := Kept.ends kept orderly clock asked
  obtain ⟨e, one, _⟩ := once (kept_after kept orderly n) (asked_after kept orderly asked n) ended
  exact ⟨n, by rw [one]; rfl⟩

namespace Sample

/-- The node asks socket 200 of node 5 for some packets. -/
def ask (packets : Nat) : Event := .request ⟨2#16, 5#8, 200#8, false⟩ 6#8 [] packets false

/-- Node 5 sends a packet of a response. -/
def answer (seq : Octet) (body : Packet) : Event :=
  .frame ([128#8, 5#8, 1#8, 0#8, 13#8, 6#8, 200#8, 3#8, 0x80#8, seq, 0#8, 1#8] ++ body) .keep

/-- The node when it has been sent a packet it did not ask for, and then the one it did. -/
def overfed : Booked :=
  run Booked.step ⟨node, fun _ => {}⟩
    [ask 1, answer 3#8 [1#8, 2#8, 3#8, 4#8], answer 0#8 [5#8, 6#8, 7#8, 8#8]]

/-- The node when it has asked for two packets. -/
def asking : Booked := Booked.step ⟨node, fun _ => {}⟩ (ask 2)

/-- The first of the packets asked for is not beyond them, and the end is still open. -/
theorem orderly_answer : asking.Orderly (answer 0#8 [5#8, 6#8, 7#8, 8#8]) := by
  rintro d a r q heard - found booked
  have first : some a.seq = some 0 :=
    (congrArg (Option.map fun p : Ddp × Atp => p.2.seq) heard).symm.trans (by decide +kernel)
  have alone : asking.stack.requests.all fun r => r.id = 0 ∧ r.respCount = -1 := by decide +kernel
  have two : (asking.book 0).asked.map (·.count) = some 2 := by decide +kernel
  obtain ⟨named, open_⟩ := of_decide_eq_true
    (List.all_eq_true.mp alone r (List.mem_of_find?_eq_some found))
  rw [named] at booked
  rw [booked] at two
  rw [Option.some.inj first, show q.count = 2 from Option.some.inj two]
  exact ⟨by decide, fun m ended => by omega⟩

/-- The node when one of the two packets has come. -/
def waiting : Booked := asking.step (answer 0#8 [5#8, 6#8, 7#8, 8#8])

end Sample

open Sample in
/-- A packet beyond those asked for is handed on, with empty ones before it. -/
theorem overfed_request :
    (overfed.book 0).asked = some ⟨⟨2#16, 5#8, 200#8, false⟩, 1#16, 1⟩ ∧
      (overfed.book 0).ends = [(0, true, [[5#8, 6#8, 7#8, 8#8], [], [], [1#8, 2#8, 3#8, 4#8]])] ∧
      ¬ Ended overfed.stack.cpuHz ⟨⟨2#16, 5#8, 200#8, false⟩, 1#16, 1⟩ (overfed.book 0)
        (0, true, [[5#8, 6#8, 7#8, 8#8], [], [], [1#8, 2#8, 3#8, 4#8]]) := by
  refine ⟨by decide +kernel, by decide +kernel, fun complete => ?_⟩
  have := (Complete.each complete 1 [] rfl).1
  simp at this

open Sample in
/-- The request of which one packet is still to come ends once the clock has run. -/
theorem request_ends_once_answered : (waiting.book 0).ends = [] ∧
      ∃ n, ((waiting.after (fun n => .tick (n * 15667200) true) n).book 0).ends.length = 1 := by
  have asked : (waiting.book 0).asked = some ⟨⟨2#16, 5#8, 200#8, false⟩, 1#16, 2⟩ := by
    decide +kernel
  have orderly : Along Booked.step Orderly ⟨node, fun _ => {}⟩
      [ask 2, answer 0#8 [5#8, 6#8, 7#8, 8#8]] := ⟨trivial, orderly_answer, trivial⟩
  refine ⟨by decide +kernel, (request_ends_once rfl orderly rfl asked).2 _ (fun n => ?_) ?_⟩
  · refine along_of_forall (fun e among w => ?_) _
    obtain ⟨_, _, rfl⟩ := List.mem_map.mp among
    trivial
  · intro n time
    refine ⟨max n time.toNat, le_max_left .., _, ?_, rfl⟩
    omega

end Pom68k.Atalk
