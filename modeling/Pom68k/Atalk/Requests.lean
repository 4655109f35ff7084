import Pom68k.Atalk.Stack

/-! # Requests of the node

A request of the node is tried five times and ends once: with the packets of its response,
or with none. What the node has asked, tried and heard is kept beside it, request by request.
-/

namespace Pom68k.Atalk

/-- What a request has asked for, and of whom. -/
structure Asked where
  dst : Addr
  tid : BitVec 16
  count : Nat
deriving DecidableEq

/-- A packet of a response as it came in. -/
structure Heard where
  seq : Nat
  eom : Bool
  body : Packet
deriving DecidableEq

/-- The story of a request: its tries and its ends with their times. -/
structure Account where
  asked : Option Asked := none
  heard : List Heard := []
  tries : List Int := []
  ends : List (Int × Bool × List Packet) := []
deriving DecidableEq

/-- A response is for those who asked its sender under its number. -/
def Asked.fits (q : Asked) (src : Addr) (a : Atp) : Bool :=
  q.tid = a.tid ∧ q.dst.net = src.net ∧ q.dst.node = src.node ∧ q.dst.sock = src.sock

/-- A try of a request in what the node does. -/
def Output.tries (id : Nat) : Output → Option Unit
  | .tried i _ => if i = id then some () else none
  | _ => none

/-- An end of a request in what the node does. -/
def Output.ends (id : Nat) : Output → Option (Bool × List Packet)
  | .done i ok pkts => if i = id then some (ok, pkts) else none
  | _ => none

namespace Account

def hears (x : Account) (src : Addr) (a : Atp) : Account :=
  if x.asked.any (·.fits src a) then { x with heard := x.heard ++ [⟨a.seq, a.eom, a.body⟩] } else x

def sees (x : Account) (id : Nat) (now : Int) (out : List Output) : Account :=
  { x with
    tries := x.tries ++ (out.filterMap (Output.tries id)).map fun _ => now
    ends := x.ends ++ (out.filterMap (Output.ends id)).map fun e => (now, e) }

end Account

abbrev Book := Nat → Account

/-- The node with the stories of its requests. -/
structure Booked where
  stack : AtalkStack
  book : Book := fun _ => {}

namespace Booked

open AtalkStack

/-- What is known of a request before the node acts. -/
def notice (w : Booked) : Event → Book
  | .frame bytes _ => fun id =>
    match w.stack.heard bytes with
    | some (d, a) => if a.func = kAtpTResp then (w.book id).hears d.src a else w.book id
    | none => w.book id
  | .request dst _ _ maxResp _ => fun id =>
    if id = w.stack.made ∧ 0 < maxResp then
      { w.book id with asked := some ⟨dst, w.stack.nextTid, (min maxResp 8).toNat⟩ }
    else w.book id
  | _ => w.book

def step (w : Booked) (e : Event) : Booked :=
  ⟨(w.stack.step e).1, fun id => (w.notice e id).sees id (w.stack.step e).1.now (w.stack.step e).2⟩

/-- A responder keeps to what was asked: no packet beyond it, and one end of the message. -/
def Orderly (w : Booked) : Event → Prop
  | .frame bytes _ => ∀ d a r q, w.stack.heard bytes = some (d, a) → a.func = kAtpTResp →
      w.stack.requests.find? (·.expects d.src a) = some r → (w.book r.id).asked = some q →
      a.seq < q.count ∧
        ∀ m : Nat, r.respCount = m + 1 → (a.eom = true → a.seq ≤ m) ∧ (a.seq = m → a.eom = true)
  | _ => True

end Booked

/-! ## Packets of a response -/

/-- All packets of a response, each of them heard, and the last one known to be the last. -/
structure Complete (q : Asked) (heard : List Heard) (pkts : List Packet) : Prop where
  some_ : pkts ≠ []
  each : ∀ i body, pkts[i]? = some body → 4 ≤ body.length ∧ ∃ eom, ⟨i, eom, body⟩ ∈ heard
  last : pkts.length = q.count ∨
    ∃ body, pkts.getLast? = some body ∧ ⟨pkts.length - 1, true, body⟩ ∈ heard

/-- What a request has collected so far. -/
structure Collects (q : Asked) (heard : List Heard) (r : PendingReq) : Prop where
  room : r.resp.length ≤ q.count
  got : ∀ i < q.count, (r.respCount = -1 ∨ (i : Int) < r.respCount) → r.need.getLsbD i = false →
    ∃ body eom, r.resp[i]? = some body ∧ ⟨i, eom, body⟩ ∈ heard ∧ 4 ≤ body.length
  last : r.respCount = -1 ∨ ∃ (m : Nat) (body : Packet), r.respCount = m + 1 ∧ m < q.count ∧
    r.resp[m]? = some body ∧ ⟨m, true, body⟩ ∈ heard

theorem length_resized (l : List Packet) (n : Nat) : (resized l n).length = n := by
  simp [resized]
  omega

theorem getElem?_resized {l : List Packet} {n i : Nat} {body : Packet} (inside : i < n)
    (found : l[i]? = some body) : (resized l n)[i]? = some body := by
  have short : i < (l.take n).length := by
    have := (List.getElem?_eq_some_iff.mp found).1
    simp
    omega
  rw [resized, List.getElem?_append_left short, List.getElem?_take_of_lt inside, found]

namespace PendingReq

variable {r : PendingReq} {a : Atp}

theorem getLsbD_clear (need : Octet) (seq i : Nat) :
    (need &&& ~~~(1#8 <<< seq)).getLsbD i = (need.getLsbD i && decide (i ≠ seq)) := by
  by_cases small : i < 8
  · grind
  · simp [BitVec.getLsbD_of_ge _ _ (Nat.le_of_not_lt small)]

theorem getLsbD_foldl_clear (need : Octet) (seq : Nat) (bits : List Nat) (i : Nat) :
    (bits.foldl (fun need b => if seq < b then need &&& ~~~(1#8 <<< b) else need) need).getLsbD i =
      (need.getLsbD i && decide (¬ (seq < i ∧ i ∈ bits))) := by
  induction bits generalizing need with
  | nil => simp
  | cons b bits ih =>
    rw [List.foldl_cons, ih]
    split
    · rw [getLsbD_clear]
      grind
    · grind

variable (r)

/-- A packet is no longer needed once it is there, nor is any after the end. -/
theorem getLsbD_accept_need (a : Atp) (i : Nat) :
    (r.accept a).need.getLsbD i =
      (r.need.getLsbD i && decide (i ≠ a.seq) && (!a.eom || decide (i ≤ a.seq))) := by
  by_cases small : i < 8
  · cases eom : a.eom with
    | false =>
      simp only [accept, eom, Bool.false_eq_true, if_false, getLsbD_clear]
      simp
    | true =>
      simp only [accept, eom, if_true, getLsbD_foldl_clear]
      grind
  · simp [BitVec.getLsbD_of_ge _ _ (Nat.le_of_not_lt small)]

theorem accept_respCount (a : Atp) :
    (r.accept a).respCount = if a.eom then (a.seq : Int) + 1 else r.respCount := rfl

theorem length_accept_resp (a : Atp) :
    (r.accept a).resp.length = max r.resp.length (a.seq + 1) := by
  rw [accept, List.length_set]
  split
  · rw [length_resized]
    omega
  · omega

theorem accept_resp_self (a : Atp) : (r.accept a).resp[a.seq]? = some a.body := by
  have inside : a.seq < (r.accept a).resp.length := by
    rw [length_accept_resp]
    omega
  rw [accept, List.length_set] at inside
  exact List.getElem?_set_self inside

variable {r}

theorem accept_resp_of_ne {i : Nat} {body : Packet} (other : i ≠ a.seq)
    (found : r.resp[i]? = some body) : (r.accept a).resp[i]? = some body := by
  rw [accept, List.getElem?_set_ne (Ne.symm other)]
  split
  case isTrue short =>
    have inside := (List.getElem?_eq_some_iff.mp found).1
    exact getElem?_resized (by omega) found
  case isFalse => exact found

end PendingReq

open PendingReq

section

variable {q : Asked} {heard : List Heard} {r : PendingReq} (collects : Collects q heard r)
include collects

/-- A packet that keeps to what was asked is collected. -/
theorem Collects.accept {a : Atp} (asked : a.seq < q.count) (once : ∀ m : Nat, r.respCount = m + 1 →
      (a.eom = true → a.seq ≤ m) ∧ (a.seq = m → a.eom = true))
    (body : 4 ≤ a.body.length) :
    Collects q (heard ++ [⟨a.seq, a.eom, a.body⟩]) (r.accept a) := by
  have old : ∀ {x}, x ∈ heard → x ∈ heard ++ [⟨a.seq, a.eom, a.body⟩] :=
    fun inside => List.mem_append_left _ inside
  have new : ⟨a.seq, a.eom, a.body⟩ ∈ heard ++ [⟨a.seq, a.eom, a.body⟩] :=
    List.mem_append_right _ (List.mem_singleton_self _)
  have room := collects.room
  refine ⟨by rw [length_accept_resp]; omega, fun i inside before there => ?_, ?_⟩
  · by_cases here : i = a.seq
    · exact ⟨a.body, a.eom, here ▸ accept_resp_self r a, here ▸ new, body⟩
    · rw [getLsbD_accept_need] at there
      rw [accept_respCount] at before
      have earlier : (r.respCount = -1 ∨ (i : Int) < r.respCount) ∧ r.need.getLsbD i = false := by
        cases eom : a.eom with
        | false => simp_all
        | true =>
          have below : i < a.seq := by
            rw [eom, if_pos rfl] at before
            omega
          refine ⟨?_, ?_⟩
          · rcases collects.last with none | ⟨m, _, last, _⟩
            · exact .inl none
            · have := (once m last).1 eom
              omega
          · have : i ≤ a.seq := below.le
            simp_all
      obtain ⟨found, eom, kept, inside, long⟩ := collects.got i inside earlier.1 earlier.2
      exact ⟨found, eom, accept_resp_of_ne here kept, old inside, long⟩
  · rw [accept_respCount]
    cases eom : a.eom with
    | true => exact .inr ⟨a.seq, a.body, rfl, asked, accept_resp_self r a, eom ▸ new⟩
    | false =>
      rcases collects.last with none | ⟨m, found, last, inside, kept, heard⟩
      · exact .inl none
      · have other : m ≠ a.seq := fun same => by
          have := (once m last).2 same.symm
          simp [eom] at this
        exact .inr ⟨m, found, last, inside, accept_resp_of_ne other kept, eom ▸ old heard⟩

/-- When nothing more is needed, the response is complete. -/
theorem Collects.complete (some_ : 0 < q.count) (none_ : r.need = 0#8) :
    Complete q heard r.result := by
  have got : ∀ i < q.count, (r.respCount = -1 ∨ (i : Int) < r.respCount) →
      ∃ body eom, r.resp[i]? = some body ∧ ⟨i, eom, body⟩ ∈ heard ∧ 4 ≤ body.length :=
    fun i inside before => collects.got i inside before (by simp [none_])
  rcases collects.last with open_ | ⟨m, body, last, inside, kept, told⟩
  · have length : r.resp.length = q.count := by
      obtain ⟨_, _, kept, _⟩ := got (q.count - 1) (by omega) (.inl open_)
      have := (List.getElem?_eq_some_iff.mp kept).1
      have := collects.room
      omega
    have result : r.result = r.resp := by
      rw [PendingReq.result, open_]
      rfl
    rw [result]
    refine ⟨?_, fun i body found => ?_, .inl length⟩
    · rw [← List.length_pos_iff]
      omega
    · have inside := (List.getElem?_eq_some_iff.mp found).1
      obtain ⟨_, eom, kept, told, long⟩ := got i (by omega) (.inl open_)
      cases found.symm.trans kept
      exact ⟨long, eom, told⟩
  · have result : r.result = resized r.resp (m + 1) := by
      rw [PendingReq.result, last]
      rfl
    rw [result]
    refine ⟨?_, fun i body found => ?_, .inr ⟨body, ?_, ?_⟩⟩
    · rw [← List.length_pos_iff, length_resized]
      omega
    · have short := (List.getElem?_eq_some_iff.mp found).1
      rw [length_resized] at short
      obtain ⟨_, eom, kept, told, long⟩ := got i (by omega) (.inr (by omega))
      cases found.symm.trans (getElem?_resized short kept)
      exact ⟨long, eom, told⟩
    · rw [List.getLast?_eq_getElem?, length_resized]
      exact getElem?_resized (Nat.lt_succ_self m) kept
    · rwa [length_resized]

end

/-! ## Stories -/

/-- How a request ended: with its response, or after the time of its fifth try. -/
def Ended (cpuHz : Int) (q : Asked) (x : Account) : Int × Bool × List Packet → Prop
  | (_, true, pkts) => Complete q x.heard pkts
  | (time, false, pkts) => pkts = [] ∧ x.tries.length = 5 ∧
      ∃ last, x.tries.getLast? = some last ∧ last + cpuHz ≤ time

def Settled (cpuHz : Int) (x : Account) : Prop :=
  ∀ q, x.asked = some q → ∃ e, x.ends = [e] ∧ Ended cpuHz q x e

/-- A request on its way, and its story. -/
structure Standing (cpuHz : Int) (r : PendingReq) (x : Account) : Prop where
  asked : ∃ q, x.asked = some q ∧ q.dst = r.dst ∧ q.tid = r.tid ∧ 0 < q.count ∧ Collects q x.heard r
  ends : x.ends = []
  tries : x.tries.length = r.tries
  few : r.tries ≤ 5
  retry : ∃ last, x.tries.getLast? = some last ∧ r.nextRetry = last + cpuHz

/-- Every request is on its way or settled. -/
structure Kept (w : Booked) : Prop where
  apart : (w.stack.requests.map PendingReq.id).Nodup
  below : ∀ r ∈ w.stack.requests, r.id < w.stack.made
  blank : ∀ id, w.stack.made ≤ id → w.book id = {}
  standing : ∀ r ∈ w.stack.requests, Standing w.stack.cpuHz r (w.book r.id)
  settled : ∀ id, (∀ r ∈ w.stack.requests, r.id ≠ id) → Settled w.stack.cpuHz (w.book id)

namespace Account

variable {x : Account} {id : Nat} {now : Int} {out out' : List Output}

theorem sees_append : x.sees id now (out ++ out') = (x.sees id now out).sees id now out' := by
  simp [sees]

@[simp] theorem sees_nil : x.sees id now [] = x := by
  simp [sees]

@[simp] theorem sees_done (ok : Bool) (pkts : List Packet) :
    x.sees id now [.done id ok pkts] = { x with ends := x.ends ++ [(now, ok, pkts)] } := by
  simp [sees, Output.tries, Output.ends]

@[simp] theorem sees_tried (frames : List (List Octet)) :
    x.sees id now [.tried id frames] = { x with tries := x.tries ++ [now] } := by
  simp [sees, Output.tries, Output.ends]

theorem sees_frames (frames : List (List Octet)) :
    x.sees id now (List.map Output.frame frames ++ out) = x.sees id now out := by
  simp [sees, Output.tries, Output.ends]

theorem sees_of_silent (silent : ∀ o ∈ out, o.tries id = none ∧ o.ends id = none) :
    x.sees id now out = x := by
  rw [sees, List.filterMap_eq_nil_iff.mpr fun o said => (silent o said).1,
    List.filterMap_eq_nil_iff.mpr fun o said => (silent o said).2]
  simp

end Account

theorem Complete.mono {q : Asked} {heard more : List Heard} {pkts : List Packet}
    (complete : Complete q heard pkts) : Complete q (heard ++ more) pkts where
  some_ := complete.some_
  each i body found := by
    obtain ⟨long, eom, told⟩ := complete.each i body found
    exact ⟨long, eom, List.mem_append_left _ told⟩
  last := complete.last.imp_right fun ⟨body, found, told⟩ =>
    ⟨body, found, List.mem_append_left _ told⟩

theorem Collects.mono {q : Asked} {heard more : List Heard} {r : PendingReq}
    (collects : Collects q heard r) : Collects q (heard ++ more) r where
  room := collects.room
  got i inside before there := by
    obtain ⟨body, eom, found, told, long⟩ := collects.got i inside before there
    exact ⟨body, eom, found, List.mem_append_left _ told, long⟩
  last := collects.last.imp_right fun ⟨m, body, last, inside, found, told⟩ =>
    ⟨m, body, last, inside, found, List.mem_append_left _ told⟩

/-- More may be known of a request, if it was made. -/
inductive Account.Overhears (x : Account) : Account → Prop where
  | same : x.Overhears x
  | more (asked : x.asked ≠ none) (more : List Heard) :
      x.Overhears { x with heard := x.heard ++ more }

theorem Account.overhears_hears (x : Account) (src : Addr) (a : Atp) :
    x.Overhears (x.hears src a) := by
  rw [hears]
  split
  case isTrue fits =>
    refine .more (fun none => ?_) _
    simp [none] at fits
  case isFalse => exact .same

namespace Account.Overhears

variable {cpuHz : Int} {x y : Account}

section

variable (overhears : x.Overhears y)
include overhears

theorem settled (settled : Settled cpuHz x) : Settled cpuHz y := by
  cases overhears with
  | same => exact settled
  | more _ more =>
    intro q asked
    obtain ⟨⟨time, ok, pkts⟩, once, ended⟩ := settled q asked
    refine ⟨_, once, ?_⟩
    cases ok with
    | true => exact Complete.mono ended
    | false => exact ended

theorem standing {r : PendingReq} (standing : Standing cpuHz r x) : Standing cpuHz r y := by
  cases overhears with
  | same => exact standing
  | more _ more =>
    obtain ⟨q, asked, dst, tid, some_, collects⟩ := standing.asked
    exact ⟨⟨q, asked, dst, tid, some_, collects.mono⟩, standing.ends, standing.tries,
      standing.few, standing.retry⟩

theorem rest : y.asked = x.asked ∧ y.tries = x.tries ∧ y.ends = x.ends := by
  cases overhears with
  | same | more => exact ⟨rfl, rfl, rfl⟩

theorem blank (blank : x = {}) : y = {} := by
  cases overhears with
  | same => exact blank
  | more asked more => exact absurd (congrArg Account.asked blank) asked

end

end Account.Overhears

end Pom68k.Atalk
