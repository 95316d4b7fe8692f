import Lightcache.Server.Round

/-!
# `event_process`, and the loop of `main`

`epoll_wait` fills in a batch, and the handler is called for every entry of it
without another look at the poller.  No entry goes stale: handling one connection
leaves what the others have registered alone.  So the loop takes the steps of
`Server.step`, one for each event, with a sweep when more than a second has passed.
-/

namespace Lightcache.Server

open Lightcache Lightcache.Foundation Lightcache.Hashtab

/-- An entry of `events`: the connection, `EPOLLIN` and `EPOLLOUT`. -/
structure Report where
  ptr : Option Addr
  readable : Bool
  writable : Bool
  /-- What the calls of the handler meet. -/
  reading : Env
  writing : Env

variable {σ : Type} (H : Host σ)

/-- The loop of `event_process`. -/
def handleReports : State σ → List Report → Except Fault (State σ)
  | s, [] => .ok s
  | s, r :: reports =>
      match r.ptr with
      | none => .error .assertion
      | some a => do
          let s ← if r.readable then eventHandler H s a .read r.reading else .ok s
          let s ← if r.writable then eventHandler H s a .write r.writing else .ok s
          handleReports s reports

/-- `none` is the return value -1 of `epoll_wait`. -/
def eventProcess (s : State σ) : Option (List Report) → Except Fault (State σ)
  | none => .ok s
  | some reports => handleReports H s reports

/-- One round: the clock, what `epoll_wait` returns, and the sweep. -/
structure LoopRound where
  ctime : Int
  polled : Option (List Report)
  sweep : Env

/-- The state of the loop in `main`. -/
structure Loop (σ : Type) where
  state : State σ
  ptime : Int

def mainRound (l : Loop σ) (r : LoopRound) : Except Fault (Loop σ) := do
  let s ← eventProcess H l.state r.polled
  if r.ctime - l.ptime > 1 then
    let s ← disconnectIdleConns H s r.sweep
    return ⟨s, r.ctime⟩
  else return ⟨s, l.ptime⟩

/-- The events of an entry. -/
def Report.inputs (r : Report) : List Input :=
  match r.ptr with
  | none => []
  | some a => (if r.readable then [.ready a .read r.reading] else []) ++
      if r.writable then [.ready a .write r.writing] else []

/-- The events of a round that starts at `ptime`. -/
def LoopRound.inputs (r : LoopRound) (ptime : Int) : List Input :=
  (r.polled.getD []).flatMap Report.inputs ++
    if r.ctime - ptime > 1 then [.idle r.sweep] else []

/-- The time of the last sweep, after a round. -/
def LoopRound.swept (r : LoopRound) (ptime : Int) : Int :=
  if r.ctime - ptime > 1 then r.ctime else ptime

/-- The events of all rounds, in order. -/
def schedule : Int → List LoopRound → List Input
  | _, [] => []
  | ptime, r :: rounds =>
      r.inputs ptime ++ schedule (r.swept ptime) rounds

/-- What `epoll_wait` promises: a descriptor is reported once, for what it is registered for. -/
structure Polled (s : State σ) (reports : List Report) : Prop where
  once : (reports.map Report.ptr).Nodup
  registered : ∀ r ∈ reports, ∃ a ev, r.ptr = some a ∧ a ∈ s.conns ∧
    (s.conn a).interest = some ev ∧ (r.readable = true → ev = .read) ∧
      (r.writable = true → ev = .write)

/-- The event is registered when its handler is called. -/
def Registered (s : State σ) : Input → Prop
  | .ready a ev _ => a ∈ s.conns ∧ (s.conn a).interest = some ev
  | .idle _ => True

section Batch

variable {H} {s s' : State σ} {a : Addr} {ev : Event} {env : Env} {r : Report}
  {reports : List Report}

theorem step_registered (h : Registered s (.ready a ev env)) :
    Server.step H s (.ready a ev env) = eventHandler H s a ev env := by
  rw [Server.step, if_pos ⟨h.1, .inl h.2⟩]

/-- The handler leaves the other connections in use as they are. -/
theorem eventHandler_others (hs : Sound H s) : Ensures (eventHandler H s a ev env) fun s' =>
    ∀ b ∈ s.conns, b ≠ a → (s.conn b).free = false → b ∈ s'.conns ∧ s'.conn b = s.conn b := by
  rw [eventHandler]
  split
  · refine (accept_inUse (hs.heard a _) env).imp fun s' hs' b hb hba hfree => ?_
    have hsame := modifyConn_of_ne (s := s) hba fun conn =>
      { conn with lastHeard := env.clock 0 }
    obtain ⟨hmem, hconn⟩ := hs'.2 b hb (by rw [hsame]; exact hfree)
    exact ⟨hmem, hconn.trans hsame⟩
  · refine (ensures_true _).bind fun c' _ => ensures_ok.mpr fun b hb hba _ => ?_
    exact ⟨hb, put_conn_of_ne hba⟩

/-- The rest of the batch is as good as it was. -/
theorem Polled.rest (h : Polled s (r :: reports)) (hptr : r.ptr = some a) (hp : Phased s)
    (hothers : ∀ b ∈ s.conns, b ≠ a → (s.conn b).free = false →
      b ∈ s'.conns ∧ s'.conn b = s.conn b) : Polled s' reports := by
  obtain ⟨hnew, hrest⟩ := List.nodup_cons.mp h.once
  refine ⟨hrest, fun x hx => ?_⟩
  obtain ⟨b, ev, hb, hmem, hev, hflags⟩ := h.registered x (List.mem_cons_of_mem _ hx)
  have hba : b ≠ a := by
    rintro rfl
    exact hnew (hptr.trans hb.symm ▸ List.mem_map_of_mem hx)
  have hfree : (s.conn b).free = false := by
    by_contra hfree
    have hnone := ((hp b hmem).closed (by simpa using hfree)).2.1
    rw [hnone] at hev
    cases hev
  obtain ⟨hmem', hconn⟩ := hothers b hmem hba hfree
  exact ⟨b, ev, hb, hmem', hconn ▸ hev, hflags⟩

theorem bind_congr_ok {ε α β : Type} {x : Except ε α} {f g : α → Except ε β}
    (h : ∀ a, x = .ok a → f a = g a) : (x >>= f) = x >>= g := by
  cases x with
  | ok a => exact h a rfl
  | error e => rfl

/-- The handlers of a batch run as the steps of its events, each of them registered. -/
theorem handleReports_eq (hs : Sound H s) (hp : Phased s) (hpoll : Polled s reports)
    (hcare : Meets (Server.step H) (Careful H) s (reports.flatMap Report.inputs)) :
    handleReports H s reports = run (Server.step H) s (reports.flatMap Report.inputs) ∧
      Meets (Server.step H) Registered s (reports.flatMap Report.inputs) := by
  induction reports generalizing s with
  | nil => exact ⟨rfl, trivial⟩
  | cons r reports ih =>
      obtain ⟨a, ev, hptr, ha, hev, hread, hwrite⟩ := hpoll.registered r (List.mem_cons_self ..)
      rw [List.flatMap_cons] at hcare ⊢
      rw [handleReports, hptr]
      dsimp only
      cases hflag : (r.readable || r.writable) with
      | false =>
          -- only a hang-up: the handler is not called
          obtain ⟨hr, hw⟩ := Bool.or_eq_false_iff.mp hflag
          have hnone : r.inputs = [] := by simp [Report.inputs, hptr, hr, hw]
          rw [hnone, List.nil_append] at hcare ⊢
          rw [hr, hw]
          exact ih hs hp (hpoll.rest hptr hp fun b hb _ _ => ⟨hb, rfl⟩) hcare
      | true =>
          obtain ⟨env, hone, hhandle⟩ : ∃ env, r.inputs = [.ready a ev env] ∧
              (do
                let s ← if r.readable then eventHandler H s a .read r.reading else .ok s
                let s ← if r.writable then eventHandler H s a .write r.writing else .ok s
                handleReports H s reports) =
              eventHandler H s a ev env >>= fun s => handleReports H s reports := by
            cases ev with
            | read =>
                have hw : r.writable = false := by
                  by_contra hw
                  cases hwrite (by simpa using hw)
                have hr : r.readable = true := by simpa [hw] using hflag
                refine ⟨r.reading, by simp [Report.inputs, hptr, hr, hw], ?_⟩
                rw [hr, hw]
                rfl
            | write =>
                have hr : r.readable = false := by
                  by_contra hr
                  cases hread (by simpa using hr)
                have hw : r.writable = true := by simpa [hr] using hflag
                refine ⟨r.writing, by simp [Report.inputs, hptr, hr, hw], ?_⟩
                rw [hr, hw]
                rfl
          have hreg : Registered s (.ready a ev env) := ⟨ha, hev⟩
          rw [hone, List.singleton_append] at hcare ⊢
          rw [hhandle, run_cons, step_registered hreg]
          have hnext : ∀ s', eventHandler H s a ev env = .ok s' → Sound H s' ∧ Phased s' ∧
              Polled s' reports ∧
              Meets (Server.step H) (Careful H) s' (reports.flatMap Report.inputs) := by
            intro s' hs'
            have hstep : Server.step H s (.ready a ev env) = .ok s' :=
              (step_registered hreg).trans hs'
            exact ⟨(hs.step hcare.1).of_ok hstep, (hp.step _).of_ok hstep,
              hpoll.rest hptr hp ((eventHandler_others hs).of_ok hs'), hcare.2 s' hstep⟩
          refine ⟨bind_congr_ok fun s' hs' => ?_, hreg, fun s' hs' => ?_⟩
          · obtain ⟨hs₁, hp₁, hpoll₁, hcare₁⟩ := hnext s' hs'
            exact (ih hs₁ hp₁ hpoll₁ hcare₁).1
          · obtain ⟨hs₁, hp₁, hpoll₁, hcare₁⟩ := hnext s' ((step_registered hreg).symm.trans hs')
            exact (ih hs₁ hp₁ hpoll₁ hcare₁).2

end Batch

/-! ## Rounds, and whole runs of the loop -/

section Rounds

variable {H} {s : State σ} {l : Loop σ} {r : LoopRound} {rounds : List LoopRound}

/-- What a round meets: the promise of `epoll_wait`, and what its steps rest on. -/
structure Delivers (H : Host σ) (l : Loop σ) (r : LoopRound) : Prop where
  polled : Polled l.state (r.polled.getD [])
  careful : Meets (Server.step H) (Careful H) l.state (r.inputs l.ptime)

theorem mainRound_eq (hs : Sound H l.state) (hp : Phased l.state) (h : Delivers H l r) :
    mainRound H l r = (run (Server.step H) l.state (r.inputs l.ptime) >>= fun s =>
        .ok ⟨s, r.swept l.ptime⟩) ∧
      Meets (Server.step H) Registered l.state (r.inputs l.ptime) := by
  have hcare := h.careful
  rw [LoopRound.inputs, meets_append] at hcare
  obtain ⟨hbatch, hregistered⟩ := handleReports_eq hs hp h.polled hcare.1
  have hfirst : eventProcess H l.state r.polled =
      handleReports H l.state (r.polled.getD []) := by
    cases r.polled with
    | none => rfl
    | some reports => rfl
  rw [mainRound, hfirst, hbatch, LoopRound.inputs, run_append, meets_append, LoopRound.swept]
  by_cases htime : r.ctime - l.ptime > 1
  · simp only [if_pos htime]
    refine ⟨?_, hregistered, fun _ _ => ⟨trivial, fun _ _ => trivial⟩⟩
    cases run (Server.step H) l.state ((r.polled.getD []).flatMap Report.inputs) with
    | error e => rfl
    | ok s =>
        rw [ok_bind, ok_bind, run_cons, Server.step]
        cases disconnectIdleConns H s r.sweep <;> rfl
  · simp only [if_neg htime]
    refine ⟨?_, hregistered, fun _ _ => trivial⟩
    cases run (Server.step H) l.state ((r.polled.getD []).flatMap Report.inputs) <;> rfl

theorem loop_eq (hs : Sound H l.state) (hp : Phased l.state)
    (hmeets : Meets (mainRound H) (Delivers H) l rounds) :
    (run (mainRound H) l rounds).map Loop.state =
        run (Server.step H) l.state (schedule l.ptime rounds) ∧
      Meets (Server.step H) Registered l.state (schedule l.ptime rounds) := by
  induction rounds generalizing l with
  | nil => exact ⟨rfl, trivial⟩
  | cons r rounds ih =>
      obtain ⟨hround, hregistered⟩ := mainRound_eq hs hp hmeets.1
      have hsound := hs.run hmeets.1.careful
      have hphased : Ensures (run (Server.step H) l.state (r.inputs l.ptime)) Phased :=
        run_ensures (fun _ i hs => hs.step i) hp _
      rw [run_cons, hround, schedule, run_append, meets_append]
      cases hrun : run (Server.step H) l.state (r.inputs l.ptime) with
      | error e => exact ⟨rfl, hregistered, fun s' hs' => by cases hs'⟩
      | ok s' =>
          have hrest := hmeets.2 ⟨s', r.swept l.ptime⟩ (by rw [hround, hrun]; rfl)
          obtain ⟨heq, hreg⟩ := ih (l := ⟨s', r.swept l.ptime⟩) (hsound.of_ok hrun)
            (hphased.of_ok hrun) hrest
          refine ⟨heq, hregistered, fun s₁ hs₁ => ?_⟩
          obtain rfl := Except.ok.inj hs₁
          exact hreg

/--
The loop of `main` from the start takes just the steps of `Server.step` for the events
that are reported to it and for its sweeps, in their order.  Every event is still
registered when its handler is called, so the step skips none.
-/
theorem loop_runs_steps {settings : Settings} {heap : Heap σ} {fd : Nat} {env : Env}
    (hboot : Boot H heap) (hstart : start H settings heap fd env = .ok (some s))
    (hmeets : Meets (mainRound H) (Delivers H) ⟨s, 0⟩ rounds) :
    (run (mainRound H) ⟨s, 0⟩ rounds).map Loop.state =
        run (Server.step H) s (schedule 0 rounds) ∧
      Meets (Server.step H) Registered s (schedule 0 rounds) :=
  loop_eq (l := ⟨s, 0⟩) (sound_start hboot hstart) (phased_start hstart) hmeets

/-- Whether a round meets what its steps rest on. -/
def deliversTest (H : Host σ) (l : Loop σ) (r : LoopRound) : Bool :=
  decide (((r.polled.getD []).map Report.ptr).Nodup) &&
    ((r.polled.getD []).all fun r => r.ptr.any fun a =>
      l.state.conns.contains a && (l.state.conn a).interest.any fun ev =>
        (!r.readable || ev == .read) && (!r.writable || ev == .write)) &&
    meetsTest (Server.step H) (carefulTest H) l.state (r.inputs l.ptime)

theorem delivers_of_test (h : deliversTest H l r = true) : Delivers H l r := by
  simp only [deliversTest, Bool.and_eq_true, decide_eq_true_eq, List.all_eq_true] at h
  obtain ⟨⟨honce, hall⟩, hcare⟩ := h
  refine ⟨⟨honce, fun x hx => ?_⟩, meets_of_test hcare fun _ _ _ => careful_of_test⟩
  obtain ⟨a, hptr, ha⟩ := (Option.any_eq_true ..).mp (hall x hx)
  rw [Bool.and_eq_true] at ha
  obtain ⟨ev, hev, hflags⟩ := (Option.any_eq_true ..).mp ha.2
  simp only [Bool.and_eq_true, Bool.or_eq_true, Bool.not_eq_true', beq_iff_eq] at hflags
  refine ⟨a, ev, hptr, List.contains_iff_mem.mp ha.1, hev, fun hr => ?_, fun hw => ?_⟩
  · exact hflags.1.resolve_left (by simp [hr])
  · exact hflags.2.resolve_left (by simp [hw])

/-- A round with these entries. -/
def roundOf (ctime : Int) (reports : List Report) : LoopRound :=
  ⟨ctime, some reports, hearing .wouldBlock⟩

def Report.reads (a : Addr) (b : UInt8) : Report :=
  ⟨some a, true, false, hearing (.byte b), hearing .wouldBlock⟩

def Report.writes (a : Addr) : Report :=
  ⟨some a, false, true, hearing .wouldBlock, hearing .wouldBlock⟩

/--
Two clients connect.  Then both are served in every batch, each of them stores a value
and takes its answer, and after that the connections are swept.
-/
def storesInBatches : List LoopRound :=
  roundOf 0 [⟨some 1, true, false, hearing .wouldBlock, hearing .wouldBlock⟩] ::
    roundOf 0 [⟨some 1, true, false, hearing .wouldBlock, hearing .wouldBlock⟩] ::
    (List.zipWith (fun x y => roundOf 1 [.reads 4 x, .reads 6 y]) setPacket.encode
        otherPacket.encode ++
      List.replicate 8 (roundOf 1 [.writes 4, .writes 6]) ++ [roundOf 2 []])

theorem loop_runs_steps_two :
    ∃ s, start (Host.lp64 Allocator.unlimited) ⟨0, 2⟩ (emptyHeap ∅) 3
        (hearing .eof) = .ok (some s) ∧
      ∃ l, run (mainRound (Host.lp64 Allocator.unlimited)) ⟨s, 0⟩ storesInBatches = .ok l ∧
        hcount l.state.cache = 2 ∧
        run (Server.step (Host.lp64 Allocator.unlimited)) s (schedule 0 storesInBatches) =
          .ok l.state ∧
        Meets (Server.step (Host.lp64 Allocator.unlimited)) Registered s
          (schedule 0 storesInBatches) := by
  obtain ⟨s, hstart, htest⟩ : ∃ s, start (Host.lp64 Allocator.unlimited) ⟨0, 2⟩
      (emptyHeap ∅) 3 (hearing .eof) = .ok (some s) ∧
      (meetsTest (mainRound (Host.lp64 Allocator.unlimited))
          (deliversTest (Host.lp64 Allocator.unlimited)) ⟨s, 0⟩ storesInBatches &&
        returns (run (mainRound (Host.lp64 Allocator.unlimited)) ⟨s, 0⟩ storesInBatches)
          fun l => hcount l.state.cache == 2) = true := ⟨_, rfl, by decide +kernel⟩
  rw [Bool.and_eq_true] at htest
  obtain ⟨l, hl, hcount⟩ := exists_of_returns htest.2
  obtain ⟨hrun, hregistered⟩ := loop_runs_steps (boot_emptyHeap rfl) hstart
    (meets_of_test htest.1 fun _ _ _ => delivers_of_test)
  rw [hl] at hrun
  exact ⟨s, hstart, l, hl, beq_iff_eq.mp hcount, hrun.symm, hregistered⟩

end Rounds

end Lightcache.Server
