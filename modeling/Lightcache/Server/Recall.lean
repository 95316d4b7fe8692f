import Lightcache.Server.Expiration
import Lightcache.Server.Session

/-!
# A GET recalls the last SET

The answers to one client, for every sequence of its commands: a GET is answered
with the data of the last SET of its key that succeeded, until a DELETE of the key,
a FLUSH_ALL, or the timeout of the SET ends its life.
-/

namespace Lightcache.Server

open Lightcache Lightcache.Foundation Lightcache.Hashtab Heap

variable {σ : Type} {H : Host σ} {s s' : State σ} {a : Addr} {i : Input} {f : Fields}
  {k : Bytes} {e : Entry} {past : List Exchange} {x y : Exchange}
  {z : State σ × List Exchange}

/-! ## The commands of the client -/

/-- The commands that name an entry or a setting. -/
def keyed : List ProtocolCommand :=
  [.cmdGet, .cmdSet, .cmdDelete, .cmdChgSetting, .cmdGetSetting]

/-- The key is a C string, and a SET with data has a timeout. -/
structure Complete (f : Fields) : Prop where
  key : ∀ cmd ∈ keyed, f.command = some cmd → f.key ≠ [] ∧ 0 ∉ f.key
  timeout : f.command = some .cmdSet → f.data ≠ [] → f.extra ≠ []

/-- The input executes nothing, or a complete command. -/
def Completed (H : Host σ) (s : State σ) (i : Input) : Prop :=
  ∀ f, executedBy H s i = some f → Complete f

theorem Complete.carries {ht : Cache} (h : Complete f) : ¬ ReadsNull ht f := by
  intro hnull
  rw [ReadsNull] at hnull
  split at hnull
  · rename_i hcmd
    exact (h.key _ (by decide) hcmd).1 hnull.1
  · rename_i hcmd
    exact (h.key _ (by decide) hcmd).1 hnull.1
  · rename_i hcmd
    exact h.timeout hcmd hnull.1 hnull.2
  · rename_i hcmd
    exact (h.key _ (by decide) hcmd).1 hnull
  · exact hnull

theorem Completed.carries (h : Completed H s i) : Carries H s i :=
  fun f hf => (h f hf).carries

/-! ## What a GET owes to its past -/

/-- A DELETE of `k`, or a FLUSH_ALL. -/
def Exchange.Removes (x : Exchange) (k : Bytes) : Prop :=
  x.fields.command = some .cmdDelete ∧ x.fields.key = k ∨ x.fields.command = some .cmdFlushAll

/-- `y` is the last SET of `k` that succeeded, and nothing has removed its entry since. -/
def Latest (past : List Exchange) (k : Bytes) (y : Exchange) : Prop :=
  ∃ older newer, past = older ++ y :: newer ∧ y.Stores k ∧
    ∀ z ∈ newer, ¬ z.Stores k ∧ ¬ z.Removes k

/-- The data of the last SET of `k`, while its timeout has not elapsed at `t`. -/
def Remembered (past : List Exchange) (k : Bytes) (t : Int) (data : Bytes) : Prop :=
  ∃ y timeout, Latest past k y ∧ atoullValue y.fields.extra = some timeout ∧
    t - y.time ≤ timeout ∧ y.fields.data = data

/-- A GET answers with what the past remembers. -/
structure Recalls (past : List Exchange) (x : Exchange) : Prop where
  found : x.fields.command = some .cmdGet →
    ∀ data, Remembered past x.fields.key x.time data → x.answer = (Code.success.toByte, data)
  missing : x.fields.command = some .cmdGet →
    (∀ data, ¬ Remembered past x.fields.key x.time data) →
      x.answer = (Code.keyNotexists.toByte, [])

theorem Exchange.op_put : x.op = .put k e ↔ x.Stores k ∧ e = x.entry := by
  constructor
  · intro h
    dsimp only [Exchange.op] at h
    split at h
    · cases h
    · rename_i hcmd
      split at h
      · rename_i hcode
        obtain ⟨rfl, rfl⟩ := MapOp.put.inj h
        exact ⟨⟨hcmd, hcode, rfl⟩, rfl⟩
      · cases h
    all_goals cases h
  · rintro ⟨hstores, rfl⟩
    exact hstores.op

theorem Exchange.op_settles : x.op.Settles k ↔ x.Stores k ∨ x.Removes k := by
  constructor
  · intro h
    dsimp only [Exchange.op] at h
    split at h
    · exact h.elim
    · rename_i hcmd
      split at h
      · rename_i hcode
        exact .inl ⟨hcmd, hcode, h⟩
      · exact h.elim
    · rename_i hcmd
      exact .inr (.inl ⟨hcmd, h⟩)
    · rename_i hcmd
      exact .inr (.inr hcmd)
    · exact h.elim
  · rintro (h | ⟨hcmd, hkey⟩ | hcmd)
    · rw [h.op]
      exact rfl
    · rw [Exchange.op, hcmd]
      exact hkey
    · rw [Exchange.op, hcmd]
      trivial

theorem lastPut_ops : LastPut k e (ops past) ↔ ∃ y, Latest past k y ∧ e = y.entry := by
  constructor
  · rintro ⟨before, t, after, hops, hafter⟩
    obtain ⟨older, rest, rfl, -, hrest⟩ := List.map_eq_append_iff.mp hops
    obtain ⟨y, newer, rfl, hy, rfl⟩ := List.map_eq_cons_iff.mp hrest
    obtain ⟨hstores, he⟩ := Exchange.op_put.mp (Prod.mk.inj hy).2
    refine ⟨y, ⟨older, newer, rfl, hstores, fun z hz => ?_⟩, he⟩
    exact not_or.mp (mt Exchange.op_settles.mpr (hafter _ (List.mem_map_of_mem hz)))
  · rintro ⟨y, ⟨older, newer, rfl, hstores, hnewer⟩, rfl⟩
    refine ⟨ops older, y.time, ops newer, ?_, fun x hx => ?_⟩
    · simp [ops, hstores.op]
    · obtain ⟨z, hz, rfl⟩ := List.mem_map.mp hx
      exact mt Exchange.op_settles.mp (not_or.mpr (hnewer z hz))

/-! ## One command -/

/-- The timeouts of the SETs that have succeeded are numbers. -/
def Timed (past : List Exchange) : Prop :=
  ∀ y ∈ past, ∀ k, y.Stores k → atoullValue y.fields.extra ≠ none

/-- The entry that the history has for a key is what it remembers, unless it has lapsed. -/
theorem remembered_iff {t : Int} {data : Bytes} (hlog : Until t past) (htimed : Timed past) :
    Remembered past k t data ↔
      ∃ e, living (Lapsed t) (replay Lapsed past) k = some e ∧ e.data = data := by
  have hsame : living (Lapsed t) (replay Lapsed past) = living (Lapsed t) (recorded (ops past)) :=
    living_lazily (ages_of_le hlog)
  have hentry : ∀ e, living (Lapsed t) (replay Lapsed past) k = some e ↔
      (∃ y, Latest past k y ∧ e = y.entry) ∧ ¬ Lapsed t e := fun e => by
    rw [hsame, living_eq_some, recorded_eq_some, lastPut_ops]
  constructor
  · rintro ⟨y, timeout, hy, hvalue, hage, rfl⟩
    refine ⟨y.entry, (hentry _).mpr ⟨⟨y, hy, rfl⟩, ?_⟩, rfl⟩
    rw [Lapsed, Exchange.entry, hvalue]
    exact not_lt.mpr hage
  · rintro ⟨e, he, rfl⟩
    obtain ⟨⟨y, hy, rfl⟩, hage⟩ := (hentry e).mp he
    have hpast := hy
    obtain ⟨older, newer, rfl, hstores, -⟩ := hpast
    obtain ⟨timeout, hvalue⟩ :=
      Option.ne_none_iff_exists'.mp (htimed y (by simp) k hstores)
    rw [Lapsed, Exchange.entry, hvalue] at hage
    exact ⟨y, timeout, hy, hvalue, not_lt.mp hage, rfl⟩

theorem Effect.recalls (heff : Effect H z.1 i s') (hr : Recorded H Lapsed z)
    (hi : Discerning H Lapsed z.1 i) (hlog : Until i.time z.2) (htimed : Timed z.2)
    (hy : exchanged z.1 s' i = [y]) : Recalls z.2 y := by
  have htime : y.time = i.time := time_exchanged y (by rw [hy]; exact List.mem_singleton_self y)
  have hiff : ∀ data, Remembered z.2 y.fields.key y.time data ↔
      ∃ e, living (Lapsed y.time) (replay Lapsed z.2) y.fields.key = some e ∧ e.data = data :=
    fun data => remembered_iff (htime ▸ hlog) htimed
  refine ⟨fun hget data hdata => ?_, fun hget hnone => ?_⟩
  · obtain ⟨e, he, rfl⟩ := (hiff data).mp hdata
    rw [heff.answer hr hi hy hget, he]
    rfl
  · rw [heff.answer hr hi hy hget]
    cases he : living (Lapsed y.time) (replay Lapsed z.2) y.fields.key with
    | none => rfl
    | some e => exact absurd ((hiff e.data).mpr ⟨e, he, rfl⟩) (hnone e.data)

/-- What is written down is what was executed; only a SET with a number succeeds. -/
theorem Effect.logged_fields (heff : Effect H s i s') (hy : exchanged s s' i = [y]) :
    executedBy H s i = some y.fields ∧
      ∀ k, y.Stores k → atoullValue y.fields.extra ≠ none := by
  cases heff with
  | quiet cache holds silent =>
      rw [silent] at hy
      cases hy
  | command input mem executes outcome holds shifts new logged =>
      subst input
      obtain rfl := (List.cons.inj (logged.symm.trans hy)).1
      refine ⟨executes.executedBy mem, fun k hstores => ?_⟩
      have hcmd := hstores.command
      have hcode := Code.toByte_injective hstores.code
      cases outcome with
      | setInvalid cmd invalid => cases hcode
      | setRefused cmd data valid fails => cases hcode
      | setNew cmd data valid miss => simp [valid]
      | setOver cmd data valid before clash => simp [valid]
      | _ => simp_all

/-! ## Every run of the client -/

/-- The server, its only client, and the history of its commands. -/
structure Recalling (H : Host σ) (a : Addr) (z : State σ × List Exchange) : Prop where
  recorded : Recorded H Lapsed z
  solo : Solo H z.1 a
  complete : ∀ y ∈ z.2, Complete y.fields
  timed : Timed z.2
  recalls : Justified Recalls z.2

/-- The keys in the table are C strings. -/
theorem Recalling.distinct (hz : Recalling H a z) (hi : Completed H z.1 i) :
    Distinct H z.1 i := by
  intro f hf hlooks x hx hclash
  have hnul : 0 ∉ f.key := by
    rw [Looks] at hlooks
    split at hlooks
    · rename_i hcmd
      exact ((hi f hf).key _ (by decide) hcmd).2
    · rename_i hcmd
      exact ((hi f hf).key _ (by decide) hcmd).2
    · rename_i hcmd
      exact ((hi f hf).key _ (by decide) hcmd).2
    · exact hlooks.elim
  obtain ⟨e, he⟩ := hz.recorded.sound.store.cached x hx
  obtain ⟨w, hw, hput⟩ := put_lazily x.1 e ((hz.recorded.mirrors x.1 e).mp ⟨x.2, hx, he⟩)
  obtain ⟨y, hy, rfl⟩ := List.mem_map.mp hw
  obtain ⟨hstores, -⟩ := Exchange.op_put.mp hput
  have hkey := ((hz.complete y hy).key _ (by decide) hstores.command).2
  rw [hstores.key] at hkey
  exact hclash.eq hkey hnul

/-- The server and the history see the same entries expire. -/
theorem Recalling.punctual (hz : Recalling H a z)
    (hlog : ∀ y ∈ z.2, y.time ≤ i.time ∧ i.time - y.time < 2 ^ 32) :
    Punctual H Lapsed z.1 i := by
  cases i with
  | idle env => trivial
  | ready b ev env =>
      cases ev with
      | write => trivial
      | read =>
          intro f hf hget e he
          obtain ⟨w, hw, hput⟩ := put_lazily f.key e ((hz.recorded.mirrors _ _).mp he)
          obtain ⟨y, hy, rfl⟩ := List.mem_map.mp hw
          obtain ⟨-, rfl⟩ := Exchange.op_put.mp hput
          obtain ⟨hle, hspan⟩ := hlog y hy
          simp only [Input.time] at hle hspan
          simp only [Expired, Lapsed, uint32, Exchange.entry]
          omega

theorem Recalling.step (hz : Recalling H a z) (hA : H.alloc.NeverFails) (hi : Attends a i)
    (hcomplete : Completed H z.1 i)
    (hlog : ∀ y ∈ z.2, y.time ≤ i.time ∧ i.time - y.time < 2 ^ 32) :
    Post (stepLogged H z i) (Recalling H a) StepFault := by
  have hdiscerning : Discerning H Lapsed z.1 i :=
    ⟨hz.solo.cares hA hi, hz.distinct hcomplete, hz.punctual hlog⟩
  refine ((hz.recorded.step hdiscerning).and
    (post_logged (hz.solo.attend hA hi))).mono ?_ fun _ he => he.1
  rintro z' ⟨⟨hr, heff, hlogged⟩, hsolo⟩
  rcases heff.exchanged_cases with hnil | ⟨y, hy⟩
  · rw [hnil, List.append_nil] at hlogged
    refine ⟨hr, hsolo, ?_, ?_, ?_⟩ <;> rw [hlogged]
    · exact hz.complete
    · exact hz.timed
    · exact hz.recalls
  · obtain ⟨hexecuted, htimed⟩ := heff.logged_fields hy
    rw [hy] at hlogged
    refine ⟨hr, hsolo, fun x hx => ?_, fun x hx => ?_, ?_⟩
    · rw [hlogged] at hx
      rcases List.mem_append.mp hx with hx | hx
      · exact hz.complete x hx
      · rw [List.mem_singleton.mp hx]
        exact hcomplete _ hexecuted
    · rw [hlogged] at hx
      rcases List.mem_append.mp hx with hx | hx
      · exact hz.timed x hx
      · rw [List.mem_singleton.mp hx]
        exact htimed
    · rw [hlogged]
      exact hz.recalls.concat (heff.recalls hz.recorded hdiscerning
        (fun x hx => (hlog x hx).1) hz.timed hy)

/-- A client that has just joined an empty server. -/
theorem Joined.recalling (h : Joined H s a) : Recalling H a (s, []) := by
  refine ⟨⟨h.session.solo.sound, fun k e => ?_⟩, h.session.solo, fun _ hx => (by cases hx),
    fun _ hx => (by cases hx), justified_nil⟩
  refine iff_of_false ?_ fun he => by cases he
  rintro ⟨v, hv, -⟩
  rw [h.empty] at hv
  exact Multiset.notMem_zero _ hv

/--
In every run of a client that is alone with the server, each GET is answered with
what its past remembers; only a `read` that fails can stop the server.
-/
theorem get_recalls_set {settings : Settings} {heap : Heap σ} {fd : Nat} {env₀ env : Env}
    (hboot : Boot H heap) (hstart : start H settings heap fd env₀ = .ok (some s))
    (hclean : CleanBlock H s) (hA : H.alloc.NeverFails) {l : Addr}
    (hjoin : step H s (.ready l .read env) = .ok s') (ha : a ∈ s'.conns)
    (hclient : Conn.client (s'.conn a) = true) {inputs : List Input}
    (hfor : ∀ i ∈ inputs, Attends a i)
    (hclock : (inputs.map Input.time).Pairwise (· ≤ ·))
    (hspan : ∀ i ∈ inputs, ∀ j ∈ inputs, j.time - i.time < 2 ^ 32)
    (hmeets : Meets (step H) (Completed H) s' inputs) :
    Post (run (stepLogged H) (s', []) inputs) (fun z => Justified Recalls z.2)
      fun _ => ∃ i ∈ inputs, ReadFails i := by
  have hjoined := joined hboot hstart hclean hjoin ha hclient
  have htimes : (inputs.map Input.time).Pairwise fun t t' => t ≤ t' ∧ t' - t < 2 ^ 32 := by
    refine hclock.imp_of_mem fun {t t'} ht ht' hle => ⟨hle, ?_⟩
    obtain ⟨i, hi, rfl⟩ := List.mem_map.mp ht
    obtain ⟨j, hj, rfl⟩ := List.mem_map.mp ht'
    exact hspan i hi j hj
  have hrun : Post (run (stepLogged H) (s', []) inputs) (Recalling H a) StepFault := by
    refine run_post (C := fun z i => (Completed H z.1 i ∧ Attends a i) ∧
      ∀ y ∈ z.2, y.time ≤ i.time ∧ i.time - y.time < 2 ^ 32)
      (fun z i hz hi => hz.step hA hi.1.2 hi.1.1 hi.2) hjoined.recalling ?_
    refine ((meets_map stepLogged_map hmeets).and (meets_of_forall fun _ => hfor)).and
      (meets_times htimes fun _ _ _ h => by cases h)
  by_cases hread : ∃ i ∈ inputs, ReadFails i
  · exact hrun.mono (fun z hz => hz.recalls) fun _ _ => hread
  · have htotal := (post_run_map stepLogged_map (t := (s', []))).mpr (hjoined.session.run hA hfor
      (fun i hi hfails => hread ⟨i, hi, hfails⟩) (hmeets.imp fun _ _ => Completed.carries))
    exact (hrun.and htotal).mono (fun z hz => hz.1.recalls) fun _ he => he.2.elim

/-- Whether the input executes nothing, or one of two commands. -/
def completedTest (H : Host σ) (s : State σ) (i : Input) : Bool :=
  match executedBy H s i with
  | none => true
  | some f => f == setPacket.toFields || f == getPacket.toFields

theorem completed_of_test (h : completedTest H s i = true) : Completed H s i := by
  intro f hf
  rw [completedTest, hf] at h
  rcases Bool.or_eq_true_iff.mp h with h | h
  all_goals
    obtain rfl := beq_iff_eq.mp h
    exact ⟨by decide, by decide⟩

theorem attends_of_concerns (h : Concerns a i) : Attends a i := by
  cases i with
  | ready b ev env => exact h
  | idle env => trivial

/-- A value for nine seconds is read back in time, and when it is too late. -/
theorem get_recalls_set_late :
    ∃ s s', start (Host.lp64 Allocator.unlimited) ⟨0, 2⟩ (emptyHeap ∅) 3
        (hearing .eof) = .ok (some s) ∧
      step (Host.lp64 Allocator.unlimited) s (knock 1) = .ok s' ∧
      Post (run (stepLogged (Host.lp64 Allocator.unlimited)) (s', []) readsLate)
        (fun z => Justified Recalls z.2) fun _ => ∃ i ∈ readsLate, ReadFails i := by
  obtain ⟨s, hstart, hjoin⟩ : ∃ s, start (Host.lp64 Allocator.unlimited) ⟨0, 2⟩
      (emptyHeap ∅) 3 (hearing .eof) = .ok (some s) ∧
      returns (step (Host.lp64 Allocator.unlimited) s (knock 1)) (fun s' => hasClient 4 s' &&
        meetsTest (step (Host.lp64 Allocator.unlimited))
          (completedTest (Host.lp64 Allocator.unlimited)) s' readsLate) = true :=
    ⟨_, rfl, by decide +kernel⟩
  obtain ⟨s', hs', htest⟩ := exists_of_returns hjoin
  rw [Bool.and_eq_true, hasClient, Bool.and_eq_true, List.contains_iff_mem] at htest
  refine ⟨s, s', hstart, hs', get_recalls_set (boot_emptyHeap rfl) hstart
    (cleanBlock_of_clears rfl) Allocator.neverFails_unlimited hs' htest.1.1 htest.1.2
    (fun i hi => attends_of_concerns (concerns_readsLate i hi)) (by decide) ?_
    (meets_of_test htest.2 fun _ _ _ => completed_of_test)⟩
  decide +kernel

end Lightcache.Server
