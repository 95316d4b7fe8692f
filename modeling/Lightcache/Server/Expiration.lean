import Lightcache.Server.Isolation

/-!
# Expiry does not show

The server forgets an entry whose timeout has elapsed when a GET comes across
it.  The answers are those of a server that forgets it at once, as long as no
DELETE comes first and no answer shows the memory that the entry still takes.
-/

namespace Lightcache.Server

open Lightcache Lightcache.Foundation Lightcache.Hashtab Heap

variable {σ : Type} {H : Host σ} {s s' : State σ} {i : Input} {h : Heap σ} {set : Settings}
  {q : Addr} {now : Int} {f : Fields} {res : Result} {past : List Exchange} {x : Exchange}

/-- The cache of a server that forgets every entry when its timeout has elapsed. -/
def unexpired (past : List Exchange) (now : Int) : Bytes → Option Entry :=
  living (Lapsed now) (eagerly Lapsed (ops past))

/-- What a command does to the settings. -/
def Exchange.sets (x : Exchange) (set : Settings) : Settings :=
  match x.fields.command with
  | some .cmdChgSetting =>
      if x.code = Code.success.toByte then
        { set with idleConnTimeout := (atoullValue x.fields.data).getD 0 }
      else set
  | _ => set

def settingsAfter (set : Settings) (past : List Exchange) : Settings :=
  past.foldl (fun set x => x.sets set) set

/-- The answer of a server with these settings and entries; statistics show more than these. -/
def Answers (endian : Endian) (set : Settings) (m : Bytes → Option Entry) (f : Fields)
    (answer : UInt8 × Bytes) : Prop :=
  match f.command with
  | some .cmdGet => answer = answerOf (m f.key)
  | some .cmdSet =>
      answer = (if InvalidSet f then Code.invalidParam.toByte else Code.success.toByte, [])
  | some .cmdDelete =>
      answer = (if (m f.key).isSome then Code.success.toByte else Code.keyNotexists.toByte, [])
  | some .cmdFlushAll => answer = (Code.success.toByte, [])
  | some .cmdChgSetting =>
      answer = (if InvalidChg f then Code.invalidParam.toByte else Code.success.toByte, [])
  | some .cmdGetSetting =>
      answer = if NamesTimeout f.key then
          (Code.success.toByte, endian.store 8
            (htonll endian (BitVec.ofNat 64 set.idleConnTimeout)).toNat)
        else (Code.invalidParam.toByte, [])
  | some .cmdGetStats => False
  | none => answer = (Code.invalidCommand.toByte, [])

/-- The answer shows what memory is in use, or that there is too little of it. -/
def Exchange.ShowsMemory (x : Exchange) : Prop :=
  x.fields.command = some .cmdGetStats ∨ x.code = Code.outOfMemory.toByte

/-- The time of the first exchange, or `t`. -/
def firstTime (newer : List Exchange) (t : Int) : Int := (newer.head?.map Exchange.time).getD t

/--
No entry has outlived its timeout up to `t`: a server that forgets such entries at once
has had the same cache before every command.
-/
def SameSoFar (past : List Exchange) (t : Int) : Prop :=
  ∀ older newer, past = older ++ newer →
    unexpired older (firstTime newer t) = replay Lapsed older

/-- Some of the GETs may be left out of a history. -/
def OnlyGets (p : Exchange → Bool) (past : List Exchange) : Prop :=
  ∀ x ∈ past, p x = false → x.fields.command = some .cmdGet

/--
The command is answered as if every entry had been removed at the moment of its
expiry, whether or not GETs have come across it since; and the memory is shown only
while no entry has had to be removed.
-/
def Timely (endian : Endian) (set : Settings) (past : List Exchange) (x : Exchange) : Prop :=
  (∀ p, OnlyGets p past → Answers endian (settingsAfter set past)
    (unexpired (past.filter p) x.time) x.fields x.answer) ∨
  x.ShowsMemory ∧ SameSoFar past x.time

/-! ## The three ways to forget -/

theorem ages_of_le {t : Int} (h : ∀ x ∈ past, x.time ≤ t) : Ages Lapsed t (ops past) := by
  refine List.pairwise_iff_forall_sublist.mpr fun {x y} hsub k e _ hdead => ?_
  obtain ⟨z, hz, rfl⟩ := List.mem_map.mp (hsub.subset (by simp : y ∈ [x, y]))
  have := h z hz
  simp only [Lapsed] at hdead ⊢
  omega

/-- What is left of a history does not depend on when the dead are forgotten. -/
theorem unexpired_filter {t : Int} {p : Exchange → Bool} (h : ∀ x ∈ past, x.time ≤ t)
    (hp : OnlyGets p past) :
    unexpired (past.filter p) t = living (Lapsed t) (replay Lapsed past) := by
  have hsome : ∀ x ∈ past.filter p, x.time ≤ t := fun x hx => h x (List.mem_of_mem_filter hx)
  have hsame : recorded (ops (past.filter p)) = recorded (ops past) := by
    clear h hsome
    induction past using List.reverseRecOn with
    | nil => rfl
    | append_singleton past x ih =>
        have hinit := ih fun y hy => hp y (List.mem_append_left _ hy)
        simp only [ops, List.filter_append, List.map_append, List.map_cons, List.map_nil,
          recorded_concat] at hinit ⊢
        cases hx : p x with
        | true =>
            rw [List.filter_cons_of_pos hx, List.filter_nil, List.map_cons, List.map_nil,
              recorded_concat, hinit]
        | false =>
            rw [List.filter_cons_of_neg (by simp [hx]), List.filter_nil, List.map_nil,
              List.append_nil, hinit, Exchange.op_get (hp x (by simp) hx), MapOp.record]
  rw [unexpired, living_eagerly (ages_of_le hsome), hsame, replay,
    living_lazily (ages_of_le h)]

/-! ## One command -/

theorem Outcome.answers {m : Bytes → Option Entry}
    (hout : Outcome H h s.cache set q now f res)
    (hheld : ∀ x ∈ s.cache.live, ∃ e, Holds s.heap x.2 e)
    (hholds : ∀ x ∈ s.cache.live, ∀ e, Holds h x.2 e ↔ Holds s.heap x.2 e)
    (hapart : Apart s.cache f) (hm : Mirrors s m)
    (hget : f.command = some .cmdGet → ∀ e, m f.key = some e → (Expired now e ↔ Lapsed now e))
    (hdelete : f.command = some .cmdDelete → ∀ e, m f.key = some e → ¬ Lapsed now e) :
    Answers H.endian set (living (Lapsed now) m) f (res.code.toByte, res.payload) ∨
      f.command = some .cmdGetStats ∨
        res.code = .outOfMemory ∧ memoryRefused H h s.cache f = true := by
  by_cases hcmd : f.command = some .cmdGet
  · refine .inl ?_
    rw [Answers, hcmd]
    dsimp only
    rw [hout.answer hholds hapart hm hcmd, living_of_iff (hget hcmd)]
  by_cases hremoves : f.command = some .cmdDelete
  · obtain ⟨hcode, hpayload⟩ := hout.deletes hheld hapart hm hremoves
    have hliving : (living (Lapsed now) m f.key).isSome = (m f.key).isSome := by
      cases hentry : m f.key with
      | none => simp [living, hentry]
      | some e => simp [living, hentry, Option.filter_some, hdelete hremoves e hentry]
    refine .inl ?_
    rw [Answers, hremoves]
    dsimp only
    rw [hcode, hpayload, hliving]
    split <;> rfl
  cases hout with
  | getMiss cmd => exact absurd cmd hcmd
  | getExpired cmd => exact absurd cmd hcmd
  | getHit cmd => exact absurd cmd hcmd
  | deleteMiss cmd => exact absurd cmd hremoves
  | delete cmd => exact absurd cmd hremoves
  | setRefused cmd data valid fails refused => exact .inr (.inr ⟨rfl, refused⟩)
  | getSettingRefused cmd fails refused => exact .inr (.inr ⟨rfl, refused⟩)
  | getStatsRefused cmd => exact .inr (.inl cmd)
  | getStats cmd => exact .inr (.inl cmd)
  | setInvalid cmd invalid =>
      have hinvalid : InvalidSet f := invalid
      exact .inl (by simp [Answers, cmd, hinvalid, unchanged])
  | setNew cmd data valid miss => exact .inl (by simp [Answers, cmd, InvalidSet, data, valid])
  | setOver cmd data valid before clash =>
      exact .inl (by simp [Answers, cmd, InvalidSet, data, valid])
  | chgInvalid cmd invalid =>
      have hinvalid : InvalidChg f := invalid
      exact .inl (by simp [Answers, cmd, hinvalid, unchanged])
  | chgSetting cmd data names valid =>
      exact .inl (by simp [Answers, cmd, InvalidChg, data, names, valid])
  | flushAll cmd => exact .inl (by simp [Answers, cmd])
  | getSettingInvalid cmd invalid => exact .inl (by simp [Answers, cmd, invalid, unchanged])
  | getSetting cmd names => exact .inl (by simp [Answers, cmd, names, unchanged])
  | unknown cmd => exact .inl (by simp [Answers, cmd, unchanged])

theorem settingsAfter_concat (set : Settings) (past : List Exchange) (x : Exchange) :
    settingsAfter set (past ++ [x]) = x.sets (settingsAfter set past) := by
  simp [settingsAfter]

theorem Outcome.sets (hout : Outcome H h s.cache set q now f res) :
    res.settings = (Exchange.mk f now res.code.toByte res.payload).sets set := by
  cases hout with
  | chgInvalid cmd invalid => simp [Exchange.sets, cmd, unchanged, Code.toByte]
  | chgSetting cmd data names valid => simp [Exchange.sets, cmd, valid]
  | _ => simp_all [Exchange.sets, unchanged]

theorem Effect.settings_eq (heff : Effect H s i s') (h : s.settings = settingsAfter set past) :
    s'.settings = settingsAfter set (past ++ exchanged s s' i) := by
  cases heff with
  | quiet cache holds silent settings => rw [silent, List.append_nil, settings, h]
  | command input mem executes outcome holds shifts new logged settings =>
      rw [logged, settingsAfter_concat, ← h, settings]
      exact outcome.sets

/-- No DELETE comes across an entry that has lapsed, and no GET one that it takes for new. -/
def Prompt (H : Host σ) (s : State σ) (i : Input) : Prop :=
  ∀ f, executedBy H s i = some f → ∀ e, Contains s f.key e → Lapsed i.time e →
    f.command ≠ some .cmdDelete ∧ (f.command = some .cmdGet → Expired i.time e)

/--
Once an entry has outlived its timeout, no command shows the memory: no GET_STATS is
executed, and nothing that is asked for on behalf of a request or a command is refused.
-/
def Discreet (H : Host σ) (x : State σ × List Exchange) (i : Input) : Prop :=
  ¬ SameSoFar x.2 i.time → Supplied H x.1 i ∧
    ∀ a env c q r f, i = .ready a .read env → Executes H (x.1.ctx a) env c q r f →
      f.command ≠ some .cmdGetStats ∧
        memoryRefused H (arrived c q r env).heap x.1.cache f = false

/-! ## Runs on a clock that does not go back -/

theorem time_exchanged : ∀ x ∈ exchanged s s' i, x.time = i.time := by
  cases i with
  | idle env => exact fun x hx => nomatch hx
  | ready a ev env =>
      intro x hx
      obtain ⟨y, -, rfl⟩ := List.mem_map.mp hx
      rfl

/-- A relation between the times of inputs holds between the history and the next input. -/
theorem meets_times {R : Int → Int → Prop} {inputs : List Input} {log : List Exchange}
    (hclock : (inputs.map Input.time).Pairwise R)
    (hlog : ∀ i ∈ inputs, ∀ x ∈ log, R x.time i.time) :
    Meets (stepLogged H) (fun x i => ∀ y ∈ x.2, R y.time i.time) (s, log) inputs := by
  induction inputs generalizing s log with
  | nil => trivial
  | cons i inputs ih =>
      obtain ⟨hi, hrest⟩ := List.forall_mem_cons.mp hlog
      rw [List.map_cons, List.pairwise_cons] at hclock
      refine ⟨hi, fun x hx => ?_⟩
      obtain ⟨s', -, hx⟩ := ok_of_bind_eq_ok hx
      obtain rfl := Except.ok.inj hx
      refine ih hclock.2 fun j hj y hy => ?_
      rcases List.mem_append.mp hy with hy | hy
      · exact hrest j hj y hy
      · rw [time_exchanged y hy]
        exact hclock.1 _ (List.mem_map_of_mem hj)

/-- Nothing in the history is later than `t`. -/
def Until (t : Int) (log : List Exchange) : Prop := ∀ x ∈ log, x.time ≤ t

/-- Every entry has been stored by a SET, at the time that it bears. -/
theorem replay_received {log : List Exchange} {t : Int} {k : Bytes} {e : Entry}
    (hlog : Until t log) (he : replay Lapsed log k = some e) : e.received ≤ t := by
  obtain ⟨x, hx, hput⟩ := put_lazily k e he
  obtain ⟨y, hy, rfl⟩ := List.mem_map.mp hx
  have hentry : e = y.entry := by
    dsimp only [Exchange.op] at hput
    split at hput
    · cases hput
    · split at hput
      · exact (MapOp.put.inj hput).2.symm
      · cases hput
    all_goals cases hput
  exact hentry ▸ hlog y hy

theorem lapsed_of_expired {t : Int} {e : Entry} (h : e.received ≤ t) (hexp : Expired t e) :
    Lapsed t e := by
  simp only [Expired, Lapsed, uint32] at hexp ⊢
  omega

theorem Prompt.discerning {x : State σ × List Exchange} (hp : Prompt H x.1 i)
    (hr : Recorded H Lapsed x) (hlog : Until i.time x.2) (hcare : Careful H x.1 i)
    (hd : Distinct H x.1 i) : Discerning H Lapsed x.1 i := by
  refine ⟨hcare, hd, ?_⟩
  cases i with
  | idle env => trivial
  | ready a ev env =>
      cases ev with
      | write => trivial
      | read =>
          intro f hf hget e he
          exact ⟨lapsed_of_expired (replay_received hlog ((hr.mirrors _ _).mp he)),
            fun hlapsed => (hp f hf e he hlapsed).2 hget⟩

theorem Effect.timely {x : State σ × List Exchange} (heff : Effect H x.1 i s')
    (hr : Recorded H Lapsed x) (hi : Discerning H Lapsed x.1 i) (hp : Prompt H x.1 i)
    (hd : Discreet H x i) (hlog : Until i.time x.2) (hset : x.1.settings = settingsAfter set x.2)
    {y : Exchange} (hy : exchanged x.1 s' i = [y]) : Timely H.endian set x.2 y := by
  cases heff with
  | quiet cache holds silent =>
      rw [silent] at hy
      cases hy
  | @command a env c₁ q r f h res input mem executes outcome holds shifts new logged _ heap =>
      subst input
      obtain rfl := (List.cons.inj (logged.symm.trans hy)).1
      have hf := executes.executedBy mem
      have hanswers := outcome.answers (fun x hx => hr.sound.store.cached x hx) holds
        (hi.distinct _ hf) hr.mirrors (fun hget e he => hi.punctual _ hf hget e
          ((hr.mirrors _ _).mpr he)) fun hdelete e he hlapsed =>
            (hp _ hf e ((hr.mirrors _ _).mpr he) hlapsed).1 hdelete
      have hsame : f.command = some .cmdGetStats ∨ memoryRefused H h x.1.cache f = true →
          SameSoFar x.2 (env.clock 1) := fun hshows => by
        by_contra hnot
        obtain ⟨hstats, hgranted⟩ := (hd hnot).2 a env c₁ q r f rfl executes
        rw [← heap] at hgranted
        exact hshows.elim hstats fun h => Bool.false_ne_true (hgranted.symm.trans h)
      rcases hanswers with hanswers | hstats | ⟨hcode, hrefused⟩
      · refine .inl fun p honly => ?_
        refine (congrArg (fun m => Answers _ _ m _ _) (unexpired_filter hlog honly)).mpr ?_
        rw [← hset]
        exact hanswers
      · exact .inr ⟨.inl hstats, hsame (.inl hstats)⟩
      · exact .inr ⟨.inr (congrArg Code.toByte hcode), hsame (.inr hrefused)⟩

theorem meets_settings {inputs : List Input} {log : List Exchange} (hs : Sound H s)
    (hset : s.settings = settingsAfter set log)
    (hmeets : Meets (stepLogged H) (fun x i => Careful H x.1 i) (s, log) inputs) :
    Meets (stepLogged H) (fun x _ => x.1.settings = settingsAfter set x.2) (s, log) inputs := by
  refine hmeets.of_post (I := fun x => Sound H x.1 ∧ x.1.settings = settingsAfter set x.2)
    (E := StepFault) (fun x i hx hcare => ?_) (fun x i hx _ => hx.2) ⟨hs, hset⟩
  exact (hx.1.effect hcare).bind fun s' ⟨hs', heff⟩ => ⟨hs', heff.settings_eq hx.2⟩

/-- What keeps expiry from showing. -/
structure Veiled (H : Host σ) (x : State σ × List Exchange) (i : Input) : Prop where
  considerate : Considerate H x.1 i
  distinct : Distinct H x.1 i
  prompt : Prompt H x.1 i
  discreet : Discreet H x i

/-- In every run on a clock that does not go back, expiry does not show. -/
theorem expiry_unobservable {settings : Settings} {heap : Heap σ} {fd : Nat} {env₀ : Env}
    (hboot : Boot H heap) (hstart : start H settings heap fd env₀ = .ok (some s))
    {inputs : List Input} (hclock : (inputs.map Input.time).Pairwise (· ≤ ·))
    (hmeets : Meets (stepLogged H) (Veiled H) (s, []) inputs) :
    Post (run (stepLogged H) (s, []) inputs)
        (fun x => Justified (Timely H.endian settings) x.2) StepFault ∧
      Throughout (stepLogged H)
        (fun x i x' => ¬ SameSoFar x.2 i.time → Heeded x.1 x'.1 i) (s, []) inputs := by
  have hset : s.settings = settingsAfter settings [] := by
    obtain ⟨b, mem, mem', cache, -, -, -, rfl⟩ := start_fresh hboot hstart
    rfl
  have hall := (hmeets.and (meets_settings (sound_start hboot hstart) hset
    (hmeets.imp fun _ _ h => h.considerate.1))).and
      (meets_times hclock fun _ _ _ h => by cases h)
  have hdiscerning : ∀ x i, Recorded H Lapsed x → (Veiled H x i ∧
      x.1.settings = settingsAfter settings x.2) ∧ Until i.time x.2 →
        Discerning H Lapsed x.1 i := fun _ _ hr ⟨⟨hi, _⟩, hlog⟩ =>
    hi.prompt.discerning hr hlog hi.considerate.1 hi.distinct
  refine ⟨((recorded_start hboot hstart).run hdiscerning (P := Timely H.endian settings)
    (fun x i s' hr hi heff y hy => heff.timely hr (hdiscerning x i hr hi) hi.1.1.prompt
      hi.1.1.discreet hi.2 hi.1.2 hy) justified_nil hall).imp fun _ h => h.2, ?_⟩
  refine hmeets.throughout (I := fun x => Sound H x.1) (fun x i hs hi => ?_)
    (sound_start hboot hstart)
  refine ensures_of_ok fun x' hx' => ?_
  obtain ⟨s', hs', hx'⟩ := ok_of_bind_eq_ok hx'
  obtain rfl := Except.ok.inj hx'
  obtain ⟨hsound, heff⟩ := (hs.effect hi.considerate.1).of_ok hs'
  exact ⟨hsound, fun hnot => heff.heeded (hi.discreet hnot).1⟩

/-- The bytes arrive at the connection `a` at the time `t`, one in each event. -/
def arriveAt (t : Int) (a : Addr) (bytes : Bytes) : List Input :=
  bytes.map fun b => .ready a .read ⟨fun _ => t, 1, none, .byte b, .sent⟩

def takeAt (t : Int) (a : Addr) (n : Nat) : List Input :=
  List.replicate n (.ready a .write ⟨fun _ => t, 1, none, .wouldBlock, .sent⟩)

/-- A value for nine seconds is read back in time, and when it is too late. -/
def readsLate : List Input :=
  arrive 4 setPacket.encode ++ Server.take 4 8 ++ arriveAt 5 4 getPacket.encode ++
    takeAt 5 4 9 ++ arriveAt 10 4 getPacket.encode

theorem concerns_readsLate : ∀ i ∈ readsLate, Concerns 4 i := by
  intro i hi
  simp only [readsLate, List.mem_append] at hi
  rcases hi with (((hi | hi) | hi) | hi) | hi
  · exact concerns_arrive 4 _ i hi
  · exact concerns_take 4 _ i hi
  · obtain ⟨b, -, rfl⟩ := List.mem_map.mp hi
    rfl
  · rw [List.eq_of_mem_replicate hi]
    rfl
  · obtain ⟨b, -, rfl⟩ := List.mem_map.mp hi
    rfl

/-- Whether an entry is deleted only when it has just been stored. -/
def promptTest (H : Host σ) (s : State σ) (i : Input) : Bool :=
  agesTest H s i && (executedBy H s i).all fun f => f.command != some .cmdDelete ||
    s.cache.items.all fun it => it.free || it.name != f.key

theorem prompt_of_test (h : promptTest H s i = true) : Prompt H s i := by
  intro f hf e he hlapsed
  rw [promptTest, hf, Option.all_some, Bool.and_eq_true, Bool.or_eq_true] at h
  obtain ⟨hages, hcmd⟩ := h
  refine ⟨fun hdelete => ?_, fun _ => (expired_iff_of_test hages hf he).mpr hlapsed⟩
  obtain ⟨v, hv, -⟩ := he
  obtain ⟨it, hit, hlive, hitem⟩ := mem_live.mp hv
  obtain ⟨hname, -⟩ := Prod.mk.inj hitem
  rcases hcmd with hcmd | hnone
  · simp [hdelete] at hcmd
  · have htest := List.all_eq_true.mp hnone it (Multiset.mem_coe.mp hit)
    simp [hlive, ← hname] at htest

/-- Whether the command shows no memory. -/
def discreetTest (H : Host σ) (s : State σ) : Input → Bool
  | .ready a .read env =>
      match commandOf H (s.ctx a) env with
      | none => true
      | some (c, q, r) => (c.heap.fields r).command != some .cmdGetStats &&
          !memoryRefused H (arrived c q r env).heap s.cache (c.heap.fields r)
  | _ => true

theorem discreet_of_test {x : State σ × List Exchange} (hA : H.alloc.NeverFails)
    (h : discreetTest H x.1 i = true) : Discreet H x i := by
  refine fun _ => ⟨supplied_of_neverFails hA x.1 i, fun a env c q r f hi hexec => ?_⟩
  subst hi
  rw [discreetTest, hexec.commandOf] at h
  dsimp only at h
  rw [hexec.fields, Bool.and_eq_true, Bool.not_eq_true', bne_iff_ne] at h
  exact h

/--
A value for nine seconds is read back in time by another client.  When it is too late
nobody finds it, or can delete it, until it is stored again.
-/
def outlivedBeside : List Input :=
  knock 1 :: knock 1 :: (arrive 4 setPacket.encode ++ Server.take 4 8 ++
    arriveAt 5 6 getPacket.encode ++ takeAt 5 6 9 ++ arriveAt 10 4 getPacket.encode ++
    takeAt 10 4 8 ++ arriveAt 11 6 deletePacket.encode ++ takeAt 11 6 8 ++
    arriveAt 12 4 setPacket.encode ++ takeAt 12 4 8 ++ arriveAt 13 6 getPacket.encode)

theorem expiry_unobservable_beside :
    ∃ s, start (Host.lp64 Allocator.unlimited) ⟨0, 2⟩ (emptyHeap ∅) 3
        (hearing .eof) = .ok (some s) ∧
      ∃ x, run (stepLogged (Host.lp64 Allocator.unlimited)) (s, []) outlivedBeside = .ok x ∧
        x.2.map Exchange.code = [Code.success.toByte, Code.success.toByte,
          Code.keyNotexists.toByte, Code.keyNotexists.toByte, Code.success.toByte,
          Code.success.toByte] ∧
        Justified (Timely (Host.lp64 Allocator.unlimited).endian ⟨0, 2⟩) x.2 ∧
        Throughout (stepLogged (Host.lp64 Allocator.unlimited))
          (fun x i x' => ¬ SameSoFar x.2 i.time → Heeded x.1 x'.1 i) (s, []) outlivedBeside := by
  obtain ⟨s, hstart, htest⟩ : ∃ s, start (Host.lp64 Allocator.unlimited) ⟨0, 2⟩
      (emptyHeap ∅) 3 (hearing .eof) = .ok (some s) ∧
      (meetsTest (stepLogged (Host.lp64 Allocator.unlimited)) (fun x i =>
          carefulTest (Host.lp64 Allocator.unlimited) x.1 i &&
            distinctTest (Host.lp64 Allocator.unlimited) x.1 i &&
            promptTest (Host.lp64 Allocator.unlimited) x.1 i &&
            discreetTest (Host.lp64 Allocator.unlimited) x.1 i) (s, []) outlivedBeside &&
        returns (run (stepLogged (Host.lp64 Allocator.unlimited)) (s, []) outlivedBeside)
          fun x => x.2.map Exchange.code == [Code.success.toByte, Code.success.toByte,
            Code.keyNotexists.toByte, Code.keyNotexists.toByte, Code.success.toByte,
            Code.success.toByte]) = true := ⟨_, rfl, by decide +kernel⟩
  rw [Bool.and_eq_true] at htest
  obtain ⟨x, hx, hcodes⟩ := exists_of_returns htest.2
  obtain ⟨htimely, hheeded⟩ := expiry_unobservable (boot_emptyHeap rfl) hstart
    (by decide +kernel) (meets_of_test htest.1 fun x i _ h => by
      simp only [Bool.and_eq_true] at h
      exact ⟨considerate_of_test h.1.1.1, distinct_of_test h.1.1.2, prompt_of_test h.1.2,
        discreet_of_test Allocator.neverFails_unlimited h.2⟩)
  exact ⟨s, hstart, x, hx, beq_iff_eq.mp hcodes, htimely.of_ok hx, hheeded⟩

/-- The key is deleted when its entry has already expired. -/
def deletedLate : List Input :=
  knock 1 :: arrive 4 setPacket.encode ++ Server.take 4 8 ++ arriveAt 10 4 deletePacket.encode

/-- A DELETE succeeds on an entry that has expired. -/
theorem expiry_observable :
    (deletedLate.map Input.time).Pairwise (· ≤ ·) ∧
      ∃ s, start (Host.lp64 Allocator.unlimited) ⟨0, 2⟩ (emptyHeap ∅) 3
          (hearing .eof) = .ok (some s) ∧
        ∃ x, run (stepLogged (Host.lp64 Allocator.unlimited)) (s, []) deletedLate = .ok x ∧
          ¬ Justified (Timely (Host.lp64 Allocator.unlimited).endian ⟨0, 2⟩) x.2 := by
  refine ⟨by decide, _, rfl, Exists.imp (fun x hx => ⟨hx.1, fun h => ?_⟩) (exists_of_returns
    (p := fun x => x.2 == [⟨setPacket.toFields, 0, 4, []⟩,
      ⟨deletePacket.toFields, 10, 4, []⟩]) ?_)⟩
  · rcases h [⟨setPacket.toFields, 0, 4, []⟩] _ [] (beq_iff_eq.mp hx.2) with hanswer | hshows
    · have hgone : unexpired [⟨setPacket.toFields, 0, 4, []⟩] 10 deletePacket.key = none := rfl
      have hlast : ((4 : UInt8), ([] : Bytes)) =
        (if (unexpired [⟨setPacket.toFields, 0, 4, []⟩] 10 deletePacket.key).isSome then
          Code.success.toByte else Code.keyNotexists.toByte, []) :=
        hanswer (fun _ => true) (fun _ _ h => by cases h)
      rw [hgone] at hlast
      revert hlast
      decide
    · rcases hshows.1 with hcmd | hcode
      · revert hcmd
        decide
      · revert hcode
        decide
  · decide +kernel

end Lightcache.Server
