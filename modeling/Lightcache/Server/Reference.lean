import Lightcache.Server.Parameters
import Lightcache.Server.Pipeline

/-!
# One cache for all clients

The commands of all clients, in the order of their execution, are answered as by
a single cache that has no memory and no connections: a map of entries that
expire when a GET comes across them, and the settings.
-/

namespace Lightcache.Server

open Lightcache Lightcache.Foundation Lightcache.Hashtab Heap

variable {σ : Type} {H : Host σ} {s s' : State σ} {a : Addr} {i : Input} {h : Heap σ}
  {set : Settings} {q : Addr} {now : Int} {f : Fields} {res : Result} {log : List Exchange}
  {z : State σ × List Exchange}

/-! ## The ideal cache -/

/-- The cache as its clients see it. -/
structure Ideal where
  entries : Bytes → Option Entry
  settings : Settings

namespace Ideal

/-- The cache after a command at the time `now`. -/
def execute (m : Ideal) (now : Int) (f : Fields) : Ideal :=
  match f.command with
  | some .cmdGet =>
      { m with
        entries := Function.update m.entries f.key (living (Expired now) m.entries f.key) }
  | some .cmdSet =>
      if InvalidSet f then m
      else
        { m with
          entries := Function.update m.entries f.key
            (some ⟨f.data, now, (atoullValue f.extra).getD 0⟩) }
  | some .cmdDelete => { m with entries := Function.update m.entries f.key none }
  | some .cmdFlushAll => { m with entries := fun _ => none }
  | some .cmdChgSetting =>
      if InvalidChg f then m
      else
        { m with
          settings := { m.settings with idleConnTimeout := (atoullValue f.data).getD 0 } }
  | _ => m

/-- The answer to a command; the text of the statistics is left open. -/
def answer (endian : Endian) (m : Ideal) (now : Int) (f : Fields) : Code × Option Bytes :=
  match f.command with
  | some .cmdGet =>
      match living (Expired now) m.entries f.key with
      | some e => (.success, some e.data)
      | none => (.keyNotexists, some [])
  | some .cmdSet => (if InvalidSet f then .invalidParam else .success, some [])
  | some .cmdDelete =>
      (if (m.entries f.key).isSome then .success else .keyNotexists, some [])
  | some .cmdFlushAll => (.success, some [])
  | some .cmdChgSetting => (if InvalidChg f then .invalidParam else .success, some [])
  | some .cmdGetSetting =>
      if NamesTimeout f.key then
        (.success, some (endian.store 8
          (htonll endian (BitVec.ofNat 64 m.settings.idleConnTimeout)).toNat))
      else (.invalidParam, some [])
  | some .cmdGetStats => (.success, none)
  | none => (.invalidCommand, some [])

/-- One command: `call` is its time and its fields, `reply` the code and the payload. -/
def Serves (endian : Endian) (m : Ideal) (call : Int × Fields) (reply : UInt8 × Bytes)
    (m' : Ideal) : Prop :=
  m' = m.execute call.1 call.2 ∧
    reply.1 = (m.answer endian call.1 call.2).1.toByte ∧
    match (m.answer endian call.1 call.2).2 with
    | some payload => reply.2 = payload
    | none => reply.2.length = lightcacheStatsSize

end Ideal

/-! ## One command -/

/-- The server holds the entries and the settings of the ideal cache; all keys are C strings. -/
structure Represents (s : State σ) (m : Ideal) : Prop where
  mirrors : Mirrors s m.entries
  settings : s.settings = m.settings
  keys : ∀ k e, m.entries k = some e → 0 ∉ k

/-- The ideal cache after a command has the entries and settings of its outcome. -/
theorem Outcome.executes {m : Ideal} (hout : Outcome H h s.cache m.settings q now f res)
    (hA : H.alloc.NeverFails) :
    (Exchange.mk f now res.code.toByte res.payload).op.lazy (Expired now) m.entries =
        (m.execute now f).entries ∧ res.settings = (m.execute now f).settings := by
  cases hout with
  | setRefused cmd data valid fails => exact absurd hA fails
  | getSettingRefused cmd fails => exact absurd hA fails
  | getStatsRefused cmd fails => exact absurd hA fails
  | setInvalid cmd invalid =>
      have hinvalid : InvalidSet f := invalid
      simp [Exchange.op, Ideal.execute, cmd, hinvalid, unchanged, Code.toByte, MapOp.lazy,
        MapOp.record]
  | setNew cmd data valid miss =>
      have hvalid : ¬ InvalidSet f := by simp [InvalidSet, data, valid]
      simp [Exchange.op, Ideal.execute, cmd, hvalid, MapOp.lazy, MapOp.record, Exchange.entry]
  | setOver cmd data valid before clash =>
      have hvalid : ¬ InvalidSet f := by simp [InvalidSet, data, valid]
      simp [Exchange.op, Ideal.execute, cmd, hvalid, MapOp.lazy, MapOp.record, Exchange.entry]
  | chgInvalid cmd invalid =>
      have hinvalid : InvalidChg f := invalid
      simp [Exchange.op, Ideal.execute, cmd, hinvalid, unchanged, MapOp.lazy, MapOp.record]
  | chgSetting cmd data names valid =>
      have hvalid : ¬ InvalidChg f := by simp [InvalidChg, data, names, valid]
      simp [Exchange.op, Ideal.execute, cmd, hvalid, MapOp.lazy, MapOp.record, valid]
  | _ => simp_all [Exchange.op, Ideal.execute, unchanged, MapOp.lazy, MapOp.record]

/-- The answer of the ideal cache to a command is that of its outcome. -/
theorem Outcome.serves {m : Ideal} (hout : Outcome H h s.cache m.settings q now f res)
    (hA : H.alloc.NeverFails)
    (hholds : ∀ x ∈ s.cache.live, ∀ e, Holds h x.2 e ↔ Holds s.heap x.2 e)
    (hheld : ∀ x ∈ s.cache.live, ∃ e, Holds s.heap x.2 e)
    (hapart : Apart s.cache f) (hm : Mirrors s m.entries) :
    m.Serves H.endian (now, f) (res.code.toByte, res.payload) (m.execute now f) := by
  refine ⟨rfl, ?_⟩
  dsimp only
  by_cases hget : f.command = some .cmdGet
  · have hanswer := hout.answer hholds hapart hm hget
    rw [Prod.mk.injEq] at hanswer
    rw [hanswer.1, hanswer.2, Ideal.answer, hget]
    dsimp only
    cases living (Expired now) m.entries f.key with
    | none => exact ⟨rfl, rfl⟩
    | some e => exact ⟨rfl, rfl⟩
  by_cases hdelete : f.command = some .cmdDelete
  · obtain ⟨hcode, hpayload⟩ := hout.deletes hheld hapart hm hdelete
    rw [hcode, hpayload, Ideal.answer, hdelete]
    exact ⟨rfl, rfl⟩
  · cases hout with
    | setRefused cmd data valid fails => exact absurd hA fails
    | getSettingRefused cmd fails => exact absurd hA fails
    | getStatsRefused cmd fails => exact absurd hA fails
    | setInvalid cmd invalid =>
        have hinvalid : InvalidSet f := invalid
        simp [Ideal.answer, cmd, hinvalid, unchanged]
    | setNew cmd data valid miss =>
        have hvalid : ¬ InvalidSet f := by simp [InvalidSet, data, valid]
        simp [Ideal.answer, cmd, hvalid]
    | setOver cmd data valid before clash =>
        have hvalid : ¬ InvalidSet f := by simp [InvalidSet, data, valid]
        simp [Ideal.answer, cmd, hvalid]
    | chgInvalid cmd invalid =>
        have hinvalid : InvalidChg f := invalid
        simp [Ideal.answer, cmd, hinvalid, unchanged]
    | chgSetting cmd data names valid =>
        have hvalid : ¬ InvalidChg f := by simp [InvalidChg, data, names, valid]
        simp [Ideal.answer, cmd, hvalid]
    | _ => simp_all [Ideal.answer, unchanged]

theorem Complete.nulFree (h : Complete f) (hlooks : Looks f) : 0 ∉ f.key := by
  rw [Looks] at hlooks
  split at hlooks
  · rename_i hcmd
    exact (h.key _ (by decide) hcmd).2
  · rename_i hcmd
    exact (h.key _ (by decide) hcmd).2
  · rename_i hcmd
    exact (h.key _ (by decide) hcmd).2
  · exact hlooks.elim

/-- Keys that are C strings are told apart. -/
theorem Represents.apart {m : Ideal} (hm : Represents s m) (hs : Sound H s) (hf : Complete f) :
    Apart s.cache f := by
  intro hlooks x hx hclash
  obtain ⟨e, he⟩ := hs.store.cached x hx
  exact hclash.eq (hm.keys _ _ ((hm.mirrors x.1 e).mp ⟨x.2, hx, he⟩)) (hf.nulFree hlooks)

/-- A command brings only its own key into the cache. -/
theorem Ideal.execute_keys {m : Ideal} (hm : ∀ k e, m.entries k = some e → 0 ∉ k)
    (hf : Complete f) : ∀ k e, (m.execute now f).entries k = some e → 0 ∉ k := by
  have hupdate : ∀ o, (∀ e, o = some e → 0 ∉ f.key) →
      ∀ k e, Function.update m.entries f.key o k = some e → 0 ∉ k := by
    intro o ho k e he
    by_cases hk : k = f.key
    · subst hk
      rw [Function.update_self] at he
      exact ho e he
    · rw [Function.update_of_ne hk] at he
      exact hm k e he
  intro k e he
  rw [execute] at he
  split at he
  · exact hupdate _ (fun e' he' => hm _ e' (living_eq_some.mp he').1) k e he
  · rename_i hcmd
    split at he
    · exact hm k e he
    · exact hupdate _ (fun _ _ => (hf.key _ (by decide) hcmd).2) k e he
  · exact hupdate _ (fun _ he' => by cases he') k e he
  · cases he
  · split at he
    · exact hm k e he
    · exact hm k e he
  · exact hm k e he

/-! ## Every run -/

def Exchange.call (x : Exchange) : Int × Fields := (x.time, x.fields)

/-- The server represents what the ideal cache has come to by answering as it has done. -/
structure Linear (H : Host σ) (m₀ : Ideal) (z : State σ × List Exchange) : Prop where
  sound : Sound H z.1
  refines : ∃ m, Represents z.1 m ∧
    Allows (Ideal.Serves H.endian) m₀ (z.2.map Exchange.call) (z.2.map Exchange.answer) m

/-- One input does to the server what it does to the ideal cache. -/
theorem Represents.effect {m : Ideal} (hm : Represents s m) (hs : Sound H s)
    (hA : H.alloc.NeverFails) (hi : Completed H s i) (heff : Effect H s i s') :
    (exchanged s s' i = [] ∧ Represents s' m) ∨
      ∃ y m', exchanged s s' i = [y] ∧ m.Serves H.endian y.call y.answer m' ∧
        Represents s' m' := by
  cases heff with
  | quiet cache holds silent settings =>
      refine .inl ⟨silent, fun k e => ?_, settings.trans hm.settings, hm.keys⟩
      rw [← hm.mirrors k e]
      change Lists s'.heap s'.cache.live k e ↔ Lists s.heap s.cache.live k e
      rw [cache, lists_congr holds]
  | @command a env c₁ q r f h res input mem executes outcome holds shifts new logged settings =>
      have hf : Complete f := hi f (by rw [input]; exact executes.executedBy mem)
      have hapart := hm.apart hs hf
      have hout := outcome
      rw [hm.settings] at hout
      have hserves := hout.serves hA holds hs.store.cached hapart hm.mirrors
      refine .inr ⟨_, m.execute (env.clock 1) f, logged, hserves, fun k e => ?_,
        settings.trans (hout.executes hA).2, Ideal.execute_keys hm.keys hf⟩
      rw [← (hout.executes hA).1]
      exact outcome.mirrors hs holds shifts new hapart hm.mirrors k e

theorem Linear.step {m₀ : Ideal} (hz : Linear H m₀ z) (hA : H.alloc.NeverFails)
    (hcare : Careful H z.1 i) (hi : Completed H z.1 i) :
    Post (stepLogged H z i) (Linear H m₀) StepFault := by
  obtain ⟨m, hm, hallows⟩ := hz.refines
  refine (hz.sound.effect hcare).bind fun s' ⟨hsound, heff⟩ => ⟨hsound, ?_⟩
  rcases hm.effect hz.sound hA hi heff with ⟨hnil, hm'⟩ | ⟨y, m', hy, hserves, hm'⟩
  · dsimp only
    rw [hnil, List.append_nil]
    exact ⟨m, hm', hallows⟩
  · dsimp only
    rw [hy, List.map_append, List.map_append]
    exact ⟨m', hm', hallows.concat hserves⟩

/-- The ideal cache of a server that has started. -/
def Ideal.fresh (settings : Settings) : Ideal := ⟨fun _ => none, settings⟩

theorem represents_start {settings : Settings} {heap : Heap σ} {fd : Nat} {env : Env}
    (hboot : Boot H heap) (hstart : start H settings heap fd env = .ok (some s)) :
    Represents s (.fresh settings) := by
  obtain ⟨b, mem, mem', cache, -, hfresh, -, hs⟩ := start_fresh hboot hstart
  have hsettings : s.settings = settings := by rw [hs]
  obtain rfl : s.cache = cache := by rw [hs]
  refine ⟨fun k e => iff_of_false ?_ (by simp [Ideal.fresh]), hsettings,
    fun k e he => by cases he⟩
  rintro ⟨v, hv, -⟩
  rw [hfresh.live] at hv
  exact Multiset.notMem_zero _ hv

/--
In every run, whoever its clients are, all commands are answered as by one ideal
cache that executes them in the same order.
-/
theorem commands_linear {settings : Settings} {heap : Heap σ} {fd : Nat} {env : Env}
    (hboot : Boot H heap) (hstart : start H settings heap fd env = .ok (some s))
    (hA : H.alloc.NeverFails) {inputs : List Input}
    (hmeets : Meets (step H) (fun s i => Careful H s i ∧ Completed H s i) s inputs) :
    Post (run (stepLogged H) (s, []) inputs) (Linear H (.fresh settings)) StepFault :=
  run_post (C := fun z i => Careful H z.1 i ∧ Completed H z.1 i)
    (fun _ _ hz hi => hz.step hA hi.1 hi.2)
    ⟨sound_start hboot hstart, _, represents_start hboot hstart, .nil _⟩
    (meets_map stepLogged_map (C := fun s i => Careful H s i ∧ Completed H s i) hmeets)

/-- A SET, and two GETs of which the last comes too late. -/
theorem commands_linear_late :
    ∃ s, start (Host.lp64 Allocator.unlimited) ⟨0, 2⟩ (emptyHeap ∅) 3
        (hearing .eof) = .ok (some s) ∧
      Post (run (stepLogged (Host.lp64 Allocator.unlimited)) (s, []) (knock 1 :: readsLate))
        (Linear (Host.lp64 Allocator.unlimited) (.fresh ⟨0, 2⟩)) StepFault := by
  obtain ⟨s, hstart, htest⟩ : ∃ s, start (Host.lp64 Allocator.unlimited) ⟨0, 2⟩
      (emptyHeap ∅) 3 (hearing .eof) = .ok (some s) ∧
      meetsTest (step (Host.lp64 Allocator.unlimited))
        (completedTest (Host.lp64 Allocator.unlimited)) s (knock 1 :: readsLate) = true :=
    ⟨_, rfl, by decide +kernel⟩
  exact ⟨s, hstart, commands_linear (boot_emptyHeap rfl) hstart Allocator.neverFails_unlimited
    ((solo_unlimited hstart concerns_readsLate).1.and
      (meets_of_test htest fun _ _ _ => completed_of_test))⟩

/-! ## What one client is answered -/

/-- An event on a structure that belongs to no client changes nothing. -/
theorem Represents.unserved {m : Ideal} {l : Addr} {ev : Event} {env : Env} (hm : Represents s m)
    (hs : Sound H s) (hcare : Careful H s (.ready l ev env))
    (hl : l ∈ s.conns → Conn.client (s.conn l) = false)
    (hstep : Server.step H s (.ready l ev env) = .ok s') : Represents s' m := by
  obtain ⟨-, hhappens⟩ := (hs.happens hcare).of_ok hstep
  cases hhappens with
  | served mem client =>
      rw [hl mem] at client
      cases client
  | other undisturbed outlives settings trace =>
      refine ⟨fun k e => ?_, settings.trans hm.settings, hm.keys⟩
      rw [← hm.mirrors k e]
      change Lists s'.heap s'.cache.live k e ↔ Lists s.heap s.cache.live k e
      rw [undisturbed.cache, lists_congr (Agree.holds_iff hs.store.cached undisturbed.agree)]

/-- A client that connects changes nothing. -/
theorem Connects.represents {m : Ideal} (hconn : Connects H s a s') (hs : Serial H s)
    (hm : Represents s m) : Represents s' m := by
  obtain ⟨l, env, hstep⟩ := hconn.accepts
  by_cases hl : l ∈ s.conns
  · refine hm.unserved hs.sound ?_ (fun _ => hconn.empty l hl) hstep
    rw [Careful]
    split
    · exact hs.clean hconn.empty
    · exact fun hclient => by
        rw [hconn.empty l hl] at hclient
        cases hclient
  · rw [Server.step, if_neg fun h => hl h.1] at hstep
    obtain rfl := Except.ok.inj hstep
    exact hm

end Lightcache.Server
