import Pom68k.Pap.Server
import Pom68k.Foundation.Runs

/-! # Jobs and their connections

A job is all that its own connection returned, as long as no connection is opened while a request
for data of an earlier one is still to end, and nothing is returned to a connection that was closed
before the end of its job. Jobs depend on a small part of the server, and most of what the server
does leaves that part alone.
-/

namespace Pom68k.Pap

open Foundation Atalk

/-- What was returned to the requests of a connection. -/
def returnedTo (serial : Nat) (log : List Happening) : List Octet :=
  log.flatMap fun
    | .returned k data _ => if k = serial then data else []
    | _ => []

/-- The jobs that were handed over, each with its connection. -/
def spooledOf (log : List Happening) : List (Nat × List Octet) :=
  log.filterMap fun
    | .spooled k job => some (k, job)
    | _ => none

theorem mem_spooledOf {log : List Happening} {k : Nat} {job : List Octet} :
    (k, job) ∈ spooledOf log ↔ .spooled k job ∈ log := by
  rw [spooledOf, List.mem_filterMap]
  constructor
  · rintro ⟨h, inside, found⟩
    cases h with
    | spooled => cases found; exact inside
    | _ => cases found
  · exact fun inside => ⟨_, inside, rfl⟩

/-! ## The part of the server that matters -/

/-- What a job and the requests for it depend on. -/
structure JobState where
  isOpen : Bool
  readInFlight : Bool
  eofSeen : Bool
  job : List Octet
  serial : Nat
  reads : List (Nat × Nat)
  /-- What was returned to each connection. -/
  returned : Nat → List Octet
  /-- The jobs that were handed over, each with its connection. -/
  spooled : List (Nat × List Octet)

namespace JobState

variable {v : JobState} {k : Nat} {data : List Octet}

/-- No job of the connection was handed over. -/
def Unspooled (v : JobState) (k : Nat) : Prop := k ∉ v.spooled.map Prod.fst

/-- Something is returned to a request of a connection. -/
def give (v : JobState) (k : Nat) (data : List Octet) : JobState :=
  { v with returned := fun k' => v.returned k' ++ if k = k' then data else [] }

/-- The answer to the one request of the connection that is open. -/
def receive (v : JobState) (data : List Octet) : JobState :=
  { v.give v.serial data with reads := [], readInFlight := false, job := v.job ++ data }

/-- The job is handed over. -/
def finish (v : JobState) : JobState :=
  if v.job = [] then v else { v with job := [], spooled := v.spooled ++ [(v.serial, v.job)] }

/-- A request for data is made, if one may be. -/
def issue (v : JobState) (read : Nat) : JobState :=
  if ¬ v.isOpen ∨ v.readInFlight ∨ v.eofSeen then v
  else { v with readInFlight := true, reads := v.reads ++ [(read, v.serial)] }

/-- A connection is opened. -/
def opened (v : JobState) : JobState :=
  { v with
    isOpen := true, readInFlight := false, eofSeen := false, job := [], serial := v.serial + 1 }

/-- Every job is all that was returned to its connection, and the only one of it. -/
structure Exact (v : JobState) : Prop where
  whole : ∀ entry ∈ v.spooled, entry.2 = v.returned entry.1
  once : (v.spooled.map Prod.fst).Nodup
  fresh : ∀ k, v.serial < k → v.returned k = [] ∧ v.Unspooled k

/-- The job of the connection opened last is what was returned to it, and can be handed over. -/
def Filled (v : JobState) : Prop := v.job = v.returned v.serial ∧ v.Unspooled v.serial

/-- At most one request is to end, one of the connection opened last. -/
structure Kept (v : JobState) : Prop extends Exact v where
  one : v.reads.length ≤ 1
  own : ∀ read ∈ v.reads, read.2 = v.serial
  reading : v.isOpen = true → (v.readInFlight = true ↔ v.reads ≠ [])
  job : v.isOpen = true → v.eofSeen = false → v.Filled
  ended : v.isOpen = true → v.eofSeen = true → v.job = [] ∧ v.reads = []

/-- Data may be returned to a connection as long as its job has not been handed over. -/
theorem Exact.give (exact : v.Exact) (early : k ≤ v.serial) (fine : v.Unspooled k ∨ data = []) :
    (v.give k data).Exact := by
  refine ⟨?_, exact.once, ?_⟩
  · rintro ⟨k', job⟩ inside
    have same : job = v.returned k' := exact.whole _ inside
    by_cases here : k = k'
    · subst here
      have none := fine.resolve_left fun unspooled => unspooled (List.mem_map_of_mem inside)
      simp [JobState.give, same, none]
    · simp [JobState.give, same, here]
  · intro k' later
    obtain ⟨nothing, unspooled⟩ := exact.fresh k' later
    have other : k ≠ k' := (lt_of_le_of_lt early later).ne
    exact ⟨by simp [JobState.give, nothing, other], unspooled⟩

theorem Exact.finish (exact : v.Exact) (filled : v.Filled) : v.finish.Exact := by
  unfold JobState.finish
  split
  · exact exact
  refine ⟨?_, ?_, fun k later => ⟨(exact.fresh k later).1, ?_⟩⟩
  · exact List.forall_mem_append.mpr ⟨exact.whole, List.forall_mem_singleton.mpr filled.1⟩
  · simpa [List.nodup_append] using ⟨exact.once, fun a b inside => by
      rintro rfl
      exact filled.2 (List.mem_map_of_mem inside)⟩
  · have unspooled := (exact.fresh k later).2
    simpa [Unspooled] using ⟨by simpa [Unspooled] using unspooled, (ne_of_lt later).symm⟩

theorem job_finish : v.finish.job = [] := by
  unfold finish
  split
  next empty => exact empty
  next => rfl

theorem finish_fields : v.finish.reads = v.reads ∧ v.finish.readInFlight = v.readInFlight ∧
    v.finish.eofSeen = v.eofSeen ∧ v.finish.serial = v.serial := by
  unfold finish
  split <;> exact ⟨rfl, rfl, rfl, rfl⟩

theorem kept_of_shut (exact : v.Exact) (one : v.reads.length ≤ 1)
    (own : ∀ read ∈ v.reads, read.2 = v.serial) (shut : v.isOpen = false) : v.Kept := by
  refine ⟨exact, one, own, ?_, ?_, ?_⟩
  all_goals
    rw [shut]
    exact fun never => (Bool.false_ne_true never).elim

/-- A job that is handed over at its end. -/
theorem Exact.ended (exact : v.Exact) (filled : v.Filled) (reads : v.reads = [])
    (inFlight : v.readInFlight = false) (eof : v.eofSeen = true) : v.finish.Kept := by
  obtain ⟨reads', inFlight', eof', _⟩ := finish_fields (v := v)
  refine ⟨exact.finish filled, ?_, ?_, ?_, ?_, fun _ _ => ⟨job_finish, reads'.trans reads⟩⟩
  · simp [reads', reads]
  · simp [reads', reads]
  · simp [reads', reads, inFlight', inFlight]
  · simp [eof', eof]

section

variable (kept : v.Kept)
include kept

theorem Kept.closed : Kept { v with isOpen := false } :=
  kept_of_shut ⟨kept.whole, kept.once, kept.fresh⟩ kept.one kept.own rfl

theorem Kept.issue (read : Nat) : (v.issue read).Kept := by
  unfold JobState.issue
  split
  · exact kept
  case isFalse free =>
    simp only [not_or, Bool.not_eq_true, Bool.not_eq_false] at free
    obtain ⟨open_, idle, more⟩ := free
    have none : v.reads = [] := by
      by_contra some
      rw [(kept.reading open_).mpr some] at idle
      cases idle
    refine ⟨⟨kept.whole, kept.once, kept.fresh⟩, ?_, ?_, ?_, kept.job, fun _ ended => ?_⟩
    · simp [none]
    · simp [none]
    · simp
    · cases more.symm.trans ended

/-- A job that is handed over because its client has left. -/
theorem Kept.abandoned (open_ : v.isOpen = true) (more : v.eofSeen = false) :
    Kept { v.finish with isOpen := false } := by
  have exact := kept.toExact.finish (kept.job open_ more)
  obtain ⟨reads, _, _, serial⟩ := finish_fields (v := v)
  refine kept_of_shut ⟨exact.whole, exact.once, exact.fresh⟩ ?_ ?_ rfl
  · exact reads.symm ▸ kept.one
  · rw [reads, serial]
    exact kept.own

theorem Kept.opened (none : v.reads = []) : v.opened.Kept := by
  have fresh := kept.fresh (v.serial + 1) (Nat.lt_succ_self _)
  refine ⟨⟨kept.whole, kept.once, fun k later => kept.fresh k (Nat.lt_of_succ_lt later)⟩, kept.one,
    ?_, ?_, fun _ _ => ⟨fresh.1.symm, fresh.2⟩, fun _ never => (Bool.false_ne_true never).elim⟩
  · simp [JobState.opened, none]
  · simp [JobState.opened, none]

/-- What was returned is added to the job, which is handed over at its end. -/
theorem Kept.receive (open_ : v.isOpen = true) (more : v.eofSeen = false) (data : List Octet) :
    (v.receive data).Kept ∧ Kept { v.receive data with eofSeen := true }.finish := by
  obtain ⟨job, unspooled⟩ := kept.job open_ more
  have exact : (v.give v.serial data).Exact := kept.toExact.give (Nat.le_refl _) (.inl unspooled)
  have filled : (v.receive data).Filled :=
    ⟨by simp [JobState.receive, JobState.give, job], unspooled⟩
  constructor
  · exact ⟨⟨exact.whole, exact.once, exact.fresh⟩, Nat.zero_le _, List.forall_mem_nil _,
      by simp [JobState.receive], fun _ _ => filled, fun _ ended => by cases more.symm.trans ended⟩
  · exact Exact.ended ⟨exact.whole, exact.once, exact.fresh⟩ filled rfl rfl rfl

end

end JobState

/-! ## The server -/

section Server

variable {s : Server} {h : Happening}

def Server.jobState (s : Server) : JobState :=
  ⟨s.isOpen, s.readInFlight, s.eofSeen, s.job, s.serial, s.reads, fun k => returnedTo k s.log,
    spooledOf s.log⟩

/-- A happening that has nothing to do with jobs. -/
def Happening.idle : Happening → Bool
  | .returned .. => false
  | .spooled .. => false
  | _ => true

theorem jobState_note (idle : h.idle = true) : (s.note h).jobState = s.jobState := by
  cases h with
  | returned | spooled => cases idle
  | _ => simp [Server.jobState, Server.note, returnedTo, spooledOf]

theorem jobState_returned (k : Nat) (data : List Octet) (eof : Bool) :
    (s.note (.returned k data eof)).jobState = s.jobState.give k data := by
  simp [Server.jobState, Server.note, returnedTo, spooledOf, JobState.give]

theorem jobState_opened (cid : Octet) (src : Addr) (sock : Octet) :
    (s.opened cid src sock).jobState = s.jobState.opened := jobState_note rfl

theorem jobState_releaseClientRead : s.releaseClientRead.jobState = s.jobState := by
  rw [Server.releaseClientRead]
  split
  · rfl
  · exact jobState_note rfl

theorem jobState_flushClientRead : s.flushClientRead.jobState = s.jobState := by
  rw [Server.flushClientRead]
  split
  · rfl
  · split
    · rfl
    · exact jobState_note rfl

theorem jobState_finishJob : s.finishJob.jobState = s.jobState.finish := by
  unfold Server.finishJob JobState.finish
  by_cases empty : s.job = []
  · rw [if_pos empty]
    exact (if_pos empty).symm
  · rw [if_neg empty]
    refine Eq.trans ?_ (if_neg empty).symm
    simp [Server.jobState, Server.note, returnedTo, spooledOf]

theorem jobState_issueRead : s.issueRead.jobState = s.jobState.issue s.nextRead := by
  unfold Server.issueRead JobState.issue
  by_cases held : ¬ s.isOpen ∨ s.readInFlight ∨ s.eofSeen
  · rw [if_pos held]
    exact (if_pos held).symm
  · rw [if_neg held]
    exact (jobState_note rfl).trans (if_neg held).symm

section

variable (kept : s.jobState.Kept) {pkts : List Packet}
include kept

theorem kept_setEnabled (on : Bool) : (s.setEnabled on).jobState.Kept := by
  rw [Server.setEnabled]
  split
  · exact kept
  · split
    · exact kept
    · rw [jobState_releaseClientRead]
      exact kept.closed

theorem kept_tick (now : Int) : (s.tick now).jobState.Kept := by
  rw [Server.tick]
  split
  · exact kept
  split
  · rw [jobState_releaseClientRead]
    exact kept.closed
  · split
    · rw [jobState_note rfl]
      exact kept
    · exact kept

theorem kept_openConn (cid : Octet) (t : Txn) (sock : Octet)
    (settled : s.isBusy cid = false → s.reads = []) : (s.openConn cid t sock).jobState.Kept := by
  rw [Server.openConn]
  split
  · rw [jobState_note rfl]
    exact kept
  case isFalse free =>
    rw [jobState_issueRead]
    refine JobState.Kept.issue ?_ _
    change (Server.releaseClientRead _).jobState.Kept
    rw [jobState_releaseClientRead, jobState_opened, jobState_note rfl]
    exact kept.opened (settled (Bool.eq_false_of_not_eq_true free))

theorem kept_closeConn (cid : Octet) (t : Txn) : (s.closeConn cid t).jobState.Kept := by
  have replied : (s.note (.responded t.number [[cid, kCloseReply, 0, 0]])).jobState.Kept := by
    rwa [jobState_note rfl]
  rw [Server.closeConn]
  split
  case isTrue own =>
    rw [jobState_releaseClientRead]
    split
    case isTrue cut =>
      have abandoned := replied.abandoned own.1 (Bool.eq_false_of_not_eq_true cut.2)
      rwa [← jobState_finishJob] at abandoned
    case isFalse => exact replied.closed
  case isFalse => exact replied

/-- An answer for the connection that is open, to its one request. -/
theorem kept_received {t : Server} (open_ : s.isOpen = true)
    (more : s.eofSeen = false)
    (same : { t with job := t.job ++ Server.dataOf pkts }.jobState =
      s.jobState.receive (Server.dataOf pkts)) : (t.received pkts).jobState.Kept := by
  obtain ⟨filled, finished⟩ := kept.receive open_ more (Server.dataOf pkts)
  have scanned : (Server.flushClientRead (Server.scanQueries
      { t with lastHeard := t.now, job := t.job ++ Server.dataOf pkts })).jobState =
        s.jobState.receive (Server.dataOf pkts) := jobState_flushClientRead.trans same
  unfold Server.received
  dsimp only
  split
  · rw [jobState_flushClientRead, jobState_finishJob]
    rw [← scanned] at finished
    exact finished
  · rw [jobState_issueRead, scanned]
    exact filled.issue _

omit kept in
/-- The last request has ended: the server is shut, or goes on with what it was given. -/
theorem kept_readDone {ok : Bool} (exact : s.jobState.Exact)
    (none : s.reads = []) (given : ok = true → s.isOpen = true →
      (Server.received { s with readInFlight := false } pkts).jobState.Kept) :
    (s.readDone ok pkts).jobState.Kept := by
  have shut (isOpen : Bool) (closed : isOpen = false) :
      JobState.Kept { s.jobState with isOpen := isOpen, readInFlight := false } :=
    JobState.kept_of_shut ⟨exact.whole, exact.once, exact.fresh⟩ (by simp [Server.jobState, none])
      (by simp [Server.jobState, none]) closed
  rw [Server.readDone]
  dsimp only
  split
  case isTrue closed => exact shut _ (Bool.eq_false_of_not_eq_true closed)
  case isFalse on =>
    split
    · rw [jobState_releaseClientRead]
      exact shut _ rfl
    case isFalse came => exact given (by simpa using came) (by simpa using on)

/-- The end of a request. Data has to come before the job of its connection is handed over. -/
theorem kept_completed (read : Nat) (ok : Bool) (pkts : List Packet)
    (settled : ok = true → s.isOpen = false → ∀ k, (read, k) ∈ s.reads →
      (∀ job, .spooled k job ∉ s.log) ∨ Server.dataOf pkts = []) :
    (step s (.completed read ok pkts)).jobState.Kept := by
  rw [step]
  split
  · exact kept
  case h_2 number serial found =>
    have inside := List.mem_of_find?_eq_some found
    obtain rfl : serial = s.serial := kept.own _ inside
    have same : number = read := by simpa using List.find?_some found
    have none : (s.reads.filter fun entry => entry.1 ≠ read) = [] := by
      obtain ⟨only, single⟩ := List.length_eq_one_iff.mp
        (Nat.le_antisymm kept.one (List.length_pos_of_mem inside))
      rw [show s.reads = [only] from single] at inside ⊢
      rw [← List.mem_singleton.mp inside]
      simp [same]
    have more (open_ : s.isOpen = true) : s.eofSeen = false := by
      by_contra ended
      have none := (kept.ended open_ (Bool.eq_true_of_not_eq_false ended)).2
      rw [show s.reads = [] from none] at inside
      cases inside
    rw [none]
    cases ok with
    | false => exact kept_readDone ⟨kept.whole, kept.once, kept.fresh⟩ rfl (by rintro ⟨⟩)
    | true =>
      have fine : s.jobState.Unspooled s.serial ∨ Server.dataOf pkts = [] := by
        rcases Bool.eq_false_or_eq_true s.isOpen with open_ | shut
        · exact .inl (kept.job open_ (more open_)).2
        · refine (settled rfl shut _ (same ▸ inside)).imp_left fun unspooled there => ?_
          obtain ⟨⟨_, job⟩, listed, rfl⟩ := List.mem_map.mp there
          exact unspooled job (mem_spooledOf.mp listed)
      have exact := kept.toExact.give (Nat.le_refl _) fine
      have noted := jobState_returned (s := { s with reads := [] }) s.serial (Server.dataOf pkts)
        (Server.isEof pkts)
      refine kept_readDone (noted ▸ ⟨exact.whole, exact.once, exact.fresh⟩) rfl fun _ open_ => ?_
      exact kept_received kept open_ (more open_) (congrArg (fun v : JobState =>
        { v with readInFlight := false, job := v.job ++ Server.dataOf pkts }) noted)

end

end Server

/-- The transaction opens a connection. -/
def Server.Opens (s : Server) (t : Txn) : Prop :=
  s.enabled = true ∧ ∃ cid high low sock quantum rest,
    t.req = cid :: kOpen :: high :: low :: sock :: quantum :: rest ∧ s.isBusy cid = false

/-- No connection is opened while a request for data is still to end, and no data comes for a
connection whose job has been handed over, as that of a client that left before the end. -/
def Settled (s : Server) : Event → Prop
  | .request t => s.Opens t → s.reads = []
  | .completed read ok pkts =>
    ok = true → s.isOpen = false → ∀ k, (read, k) ∈ s.reads →
      (∀ job, .spooled k job ∉ s.log) ∨ Server.dataOf pkts = []
  | _ => True

theorem kept_step {s : Server} {event : Event} (settled : Settled s event)
    (kept : s.jobState.Kept) : (step s event).jobState.Kept := by
  cases event with
  | setEnabled on => exact kept_setEnabled kept on
  | setDestination | polled => exact kept
  | completed read ok pkts => exact kept_completed kept read ok pkts settled
  | tick now => exact kept_tick kept now
  | request t =>
    rw [step, Server.papHandler]
    split
    case h_2 => exact kept
    case h_1 cid func high low data req =>
      split
      · exact kept
      case isFalse on =>
        rw [Decidable.not_not] at on
        split
        case isTrue isOpen =>
          split
          case h_2 => exact kept
          case h_1 sock quantum rest =>
            refine kept_openConn kept cid t sock fun free =>
              settled ⟨on, cid, high, low, sock, quantum, rest, ?_, free⟩
            rw [req, isOpen]
        split
        · split
          · exact kept
          · rw [jobState_flushClientRead]
            exact kept
        split
        · rw [jobState_note rfl]
          exact kept
        split
        · exact kept_closeConn kept cid t
        split
        · split <;> exact kept
        · exact kept

/-- As long as no connection is opened while a request for data is still to end, and no data comes
for a connection whose job has been handed over, every job is all that is ever returned to its
connection, in order, and a connection has one job at most. A request that is to end is one of the
connection opened last, and the job of that connection is what was returned to it so far. -/
theorem jobs_of_their_connections {s : Server} {events : List Event} (shut : s.isOpen = false)
    (reads : s.reads = []) (log : s.log = []) (settled : Along step Settled s events) :
    let last := run step s events
    (∀ k job, .spooled k job ∈ last.log → job = returnedTo k last.log) ∧
      ((spooledOf last.log).map Prod.fst).Nodup ∧
      (∀ read ∈ last.reads, read.2 = last.serial) ∧
      (last.isOpen = true → last.eofSeen = false → last.job = returnedTo last.serial last.log) := by
  intro last
  have start : s.jobState.Kept := by
    refine JobState.kept_of_shut ⟨?_, ?_, ?_⟩ ?_ ?_ shut
    all_goals simp [Server.jobState, JobState.Unspooled, reads, log, spooledOf, returnedTo]
  have kept : last.jobState.Kept :=
    settled.invariant (I := fun s => s.jobState.Kept) (fun _ _ => kept_step) start
  exact ⟨fun k job inside => kept.whole (k, job) (mem_spooledOf.mpr inside), kept.once, kept.own,
    fun open_ more => (kept.job open_ more).1⟩

namespace Sample

def client : Addr := { node := 5#8, sock := 200#8 }

def openFirst : Txn := ⟨0, client, [1, kOpen, 0, 0, 201, 8]⟩

def closeFirst : Txn := ⟨1, client, [1, kClose, 0, 0]⟩

def openSecond : Txn := ⟨2, client, [2, kOpen, 0, 0, 201, 8]⟩

def printer : Server := { enabled := true, dest := .file, cpuHz := 25000000 }

/-- A connection whose job comes in two answers, closed behind its end, and another. -/
def whole : List Event :=
  [.request openFirst, .completed 0 true [[1, kData, 0, 0, 0x61]],
    .completed 1 true [[1, kData, 1, 0, 0x62]], .request closeFirst, .request openSecond,
    .completed 2 true [[2, kData, 1, 0, 0x63]]]

/-- A connection is closed and another opened before the request of the first has ended. -/
def reopened : List Event :=
  [.request openFirst, .request closeFirst, .request openSecond,
    .completed 0 true [[1, kData, 0, 0, 0x61]], .completed 1 true [[2, kData, 1, 0, 0x62]]]

/-- A connection is closed before its second request has ended. -/
def cut : List Event :=
  [.request openFirst, .completed 0 true [[1, kData, 0, 0, 0x61]], .request closeFirst,
    .completed 1 true [[1, kData, 1, 0, 0x62]]]

theorem settled_whole : Along step Settled printer whole := by
  refine ⟨fun _ => rfl, fun _ shut => ?_, fun _ shut => ?_, fun _ => rfl, fun _ => rfl,
    fun _ shut => ?_, trivial⟩
  all_goals cases shut

end Sample

/-- The job is what both answers returned. -/
theorem jobs_of_their_connections_two_answers :
    .spooled 1 [0x61, 0x62] ∈ (run step Sample.printer Sample.whole).log ∧
      [0x61, 0x62] = returnedTo 1 (run step Sample.printer Sample.whole).log := by
  have inside : .spooled 1 [0x61, 0x62] ∈ (run step Sample.printer Sample.whole).log := by
    decide +kernel
  exact ⟨inside, (jobs_of_their_connections rfl rfl rfl Sample.settled_whole).1 _ _ inside⟩

/-- The answer to the request of the first connection goes into the job of the second, and what
comes for a connection that was closed early is missing from its job. -/
theorem job_of_another_connection :
    (.spooled 2 [0x61, 0x62] ∈ (run step Sample.printer Sample.reopened).log ∧
      returnedTo 2 (run step Sample.printer Sample.reopened).log = [0x62]) ∧
    .spooled 1 [0x61] ∈ (run step Sample.printer Sample.cut).log ∧
      returnedTo 1 (run step Sample.printer Sample.cut).log = [0x61, 0x62] := by
  decide +kernel

end Pom68k.Pap
