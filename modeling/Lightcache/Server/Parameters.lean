import Lightcache.Server.Ownership
import Lightcache.Server.Settings

/-!
# Numeric parameters

The timeout of a SET and the new value of a setting are what `atoull` makes of
a field.  The commands treat the field as a decimal numeral exactly when
`atoull` does.
-/

namespace Lightcache.Server

open Lightcache Lightcache.Foundation Lightcache.Hashtab Heap

variable {σ : Type} {H : Host σ} {s s' : State σ} {a : Addr} {c c' c₁ : Ctx σ} {q : Addr}
  {r : Request} {f : Fields} {env : Env} {p : Bytes} {Q B W : Multiset Addr} {res : Result}

/-- The field of a command that is to be a number. -/
def parameter (f : Fields) : Option Bytes :=
  match f.command with
  | some .cmdSet => if f.data = [] then none else some f.extra
  | some .cmdChgSetting => if NamesTimeout f.key then some f.data else none
  | _ => none

theorem parameter_eq (hp : parameter f = some p) :
    (f.command = some .cmdSet ∧ f.data ≠ [] ∧ f.extra = p) ∨
      (f.command = some .cmdChgSetting ∧ NamesTimeout f.key ∧ f.data = p) := by
  rw [parameter] at hp
  split at hp
  · rename_i hcmd
    split at hp
    · cases hp
    · exact .inl ⟨hcmd, ‹_›, Option.some.inj hp⟩
  · rename_i hcmd
    split at hp
    · exact .inr ⟨hcmd, ‹_›, Option.some.inj hp⟩
    · cases hp
  · cases hp

/-- Neither an entry nor a setting has changed. -/
def Untouched (s s' : State σ) : Prop :=
  (∀ k e, Contains s' k e ↔ Contains s k e) ∧ s'.settings = s.settings

/-- The command has worked with the number `n`. -/
def Uses (s' : State σ) (f : Fields) (now : Int) (n : Nat) : Prop :=
  (f.command = some .cmdSet → ∃ k, Contains s' k ⟨f.data, now, n⟩) ∧
    (f.command = some .cmdChgSetting → s'.settings.idleConnTimeout = n)

/-- The parameter is accepted if and only if it is the numeral of a timeout. -/
structure Numeric (s s' : State σ) (a : Addr) (f : Fields) (now : Int) (p : Bytes) :
    Prop where
  accepted : (s'.conn a).out.retcode ≠ Code.invalidParam.toByte ↔ Decimal.Valid p
  rejected : (s'.conn a).out.retcode = Code.invalidParam.toByte → Untouched s s'
  used : (s'.conn a).out.retcode = Code.success.toByte →
    ∃ n, Decimal p n ∧ 1 ≤ n ∧ n < 2 ^ 64 ∧ Uses s' f now n

/-- What the commands make of the parameter. -/
structure Parsed (s s' : State σ) (a : Addr) (f : Fields) (now : Int) (p : Bytes) :
    Prop where
  accepted : (s'.conn a).out.retcode ≠ Code.invalidParam.toByte ↔ atoullValue p ≠ none
  rejected : (s'.conn a).out.retcode = Code.invalidParam.toByte → Untouched s s'
  used : (s'.conn a).out.retcode = Code.success.toByte →
    ∀ n, atoullValue p = some n → Uses s' f now n

/-- The answer to a command with a parameter. -/
theorem Outcome.parsed {h : Heap σ} (hout : Outcome H h s.cache s.settings q (env.clock 1) f res)
    (hp : parameter f = some p) (hshifts : Shifts s s' res)
    (hsettings : s'.settings = res.settings)
    (hnew : ∀ x ∈ res.new, Holds s'.heap x.2
      ⟨f.data, env.clock 1, (atoullValue f.extra).getD 0⟩)
    (hcode : (s'.conn a).out.retcode = res.code.toByte) :
    Parsed s s' a f (env.clock 1) p := by
  have huntouched : res = unchanged s.cache s.settings res.code res.payload →
      Untouched s s' := fun hres => by
    refine ⟨fun k e => ?_, by rw [hsettings, hres]; rfl⟩
    have hkept : res.kept = s.cache.live := by rw [hres]; rfl
    have hzero : res.new = 0 := by rw [hres]; rfl
    change Lists s'.heap s'.cache.live k e ↔ Lists s.heap s.cache.live k e
    rw [hshifts.after, hzero, zero_add, hkept]
    exact lists_congr fun x hx => hshifts.kept x (hkept ▸ hx)
  have hcontains : ∀ {name n}, (name, some q) ∈ res.new → atoullValue f.extra = some n →
      Contains s' name ⟨f.data, env.clock 1, n⟩ := fun {name n} hmem hvalue => by
    have := hnew _ hmem
    rw [hvalue] at this
    refine ⟨some q, ?_, this⟩
    rw [hshifts.after]
    exact Multiset.mem_add.mpr (.inl hmem)
  rcases parameter_eq hp with ⟨hcmd, hdata, rfl⟩ | ⟨hcmd, hnames, rfl⟩
  · cases hout with
    | setInvalid cmd invalid =>
        have hnone : atoullValue f.extra = none := invalid.resolve_left hdata
        exact ⟨by simp [hcode, hnone, unchanged], fun _ => huntouched rfl,
          fun _ n hn => by simp [hnone] at hn⟩
    | setRefused cmd data valid fails =>
        refine ⟨by simp [hcode, valid, unchanged, Code.toByte], fun h => ?_, fun h => ?_⟩
        all_goals
          rw [hcode] at h
          cases h
    | setNew cmd data valid miss =>
        refine ⟨by simp [hcode, valid, Code.toByte], fun h => ?_, fun _ n hn =>
          ⟨fun _ => ⟨_, hcontains (Multiset.mem_singleton_self _) hn⟩, fun h => ?_⟩⟩
        · rw [hcode] at h
          cases h
        · simp [hcmd] at h
    | setOver cmd data valid before clash =>
        refine ⟨by simp [hcode, valid, Code.toByte], fun h => ?_, fun _ n hn =>
          ⟨fun _ => ⟨_, hcontains (Multiset.mem_singleton_self _) hn⟩, fun h => ?_⟩⟩
        · rw [hcode] at h
          cases h
        · simp [hcmd] at h
    | _ => simp_all
  · cases hout with
    | chgInvalid cmd invalid =>
        have hnone : atoullValue f.data = none := by
          rcases invalid with hnil | hnot | hnone
          · rw [hnil, atoullValue_nil]
          · exact absurd hnames hnot
          · exact hnone
        exact ⟨by simp [hcode, hnone, unchanged], fun _ => huntouched rfl,
          fun _ n hn => by simp [hnone] at hn⟩
    | chgSetting cmd data names valid =>
        refine ⟨by simp [hcode, valid, Code.toByte], fun h => ?_, fun _ n hn =>
          ⟨fun h => ?_, fun _ => ?_⟩⟩
        · rw [hcode] at h
          cases h
        · simp [hcmd] at h
        · rw [hsettings]
          exact Option.some.inj (valid.symm.trans hn)
    | _ => simp_all

/-- The server after a command that has been served. -/
theorem Sound.served_parsed (hs : Sound H s)
    (hb : Beside (s.ctx a) (arrived c₁ q r env) Q B)
    (hout : Outcome H (arrived c₁ q r env).heap c₁.cache c₁.settings q (env.clock 1) f res)
    (hserved : Served H (arrived c₁ q r env).heap c₁.cache (arrived c₁ q r env).conn c' q
      { r with received := env.clock 1 } f res Q B W)
    (hp : parameter f = some p) : Parsed s (s.put a c') a f (env.clock 1) p := by
  obtain ⟨-, hshifts, hnew⟩ := hs.shifts hb hserved
  rw [show c₁.cache = s.cache from hb.cache, show c₁.settings = s.settings from hb.settings]
    at hout
  exact hout.parsed hp hshifts hserved.settings hnew (by rw [put_conn_self, hserved.reply.retcode])

theorem Sound.parsed (hs : Sound H s) (ha : a ∈ s.conns)
    (hclient : Conn.client (s.conn a) = true) (hexec : Executes H (s.ctx a) env c₁ q r f)
    (hp : parameter f = some p) (hne : f.command = some .cmdSet → p ≠ []) :
    Post (Server.step H s (.ready a .read env)) (fun s' => Parsed s s' a f (env.clock 1) p)
      fun e => e = .nullItemKey ∧ atoullValue p ≠ none := by
  obtain ⟨ret, hrun⟩ := hexec.run
  obtain ⟨q', r', f', hexec', hserving, hb₁, hconn⟩ := hs.executing ha hclient hrun
  obtain ⟨-, rfl, rfl, rfl⟩ := hexec.unique hexec'
  have hb := hb₁.trans (beside_arrived hserving env)
  have harrived := hserving.arrived env
  rw [hs.step_executes ha hclient hexec, executeCmd_eq hserving (by rw [hconn]) env]
  rcases parameter_eq hp with ⟨hcmd, hdata, rfl⟩ | ⟨hcmd, hnames, rfl⟩
  · have hextra : f'.extra ≠ [] := hne hcmd
    rw [hcmd]
    dsimp only
    by_cases hvalue : atoullValue f'.extra = none
    · obtain ⟨c', hc', hserved⟩ := executeSet_invalid (c := arrived c₁ q' r' env) harrived
        hdata hextra hvalue
      rw [hc', ok_bind]
      exact hs.served_parsed hb (.setInvalid hcmd (.inr hvalue)) hserved hp
    · refine ((executeSet_post (c := arrived c₁ q' r' env) harrived hcmd).mono
        (fun _ h => h) fun e he => ?_).bind fun c' hc' => ?_
      · rcases he with ⟨-, hnull⟩ | ⟨rfl, -, -⟩
        · simp [ReadsNull, hcmd, hextra] at hnull
        · exact ⟨rfl, hvalue⟩
      · by_cases hgrow : GrowthRefused H (arrived c₁ q' r' env).heap
            (arrived c₁ q' r' env).cache q' f'
        · obtain ⟨-, hcode⟩ := hc'.1 hgrow
          have hretcode : ((s.put a c').conn a).out.retcode = Code.outOfMemory.toByte := by
            rw [put_conn_self, hcode]
          refine ⟨⟨fun _ => hvalue, fun _ h => ?_⟩, fun h => ?_, fun h => ?_⟩
          all_goals
            rw [hretcode] at h
            cases h
        · obtain ⟨-, res, hout, hserved⟩ := hc'.2 hgrow
          exact hs.served_parsed hb hout hserved hp
  · rw [hcmd]
    refine ((executeChgSetting_post (c := arrived c₁ q' r' env) harrived hcmd).mono
      (fun _ h => h) fun _ => False.elim).bind fun c' hc' => ?_
    obtain ⟨-, res, hout, hserved⟩ := hc'
    exact hs.served_parsed hb hout hserved hp

/-- A command that uses a field it does not carry. -/
theorem Sound.step_null (hs : Sound H s) (ha : a ∈ s.conns)
    (hclient : Conn.client (s.conn a) = true) (hexec : Executes H (s.ctx a) env c₁ q r f)
    (hnull : ReadsNull s.cache f) :
    Server.step H s (.ready a .read env) = .error .nullDeref := by
  obtain ⟨ret, hrun⟩ := hexec.run
  obtain ⟨q', r', f', hexec', hserving, hb, hconn⟩ := hs.executing ha hclient hrun
  obtain ⟨-, rfl, rfl, rfl⟩ := hexec.unique hexec'
  rw [hs.step_executes ha hclient hexec, (executeCmd_null hserving (by rw [hconn]) env).mpr
    (by rw [show c₁.cache = s.cache from hb.cache]; exact hnull)]
  rfl

/-- The field is a numeral, or the digits that `strtoull` finds in it are worth no timeout. -/
def Unambiguous (p : Bytes) : Prop :=
  (∀ b ∈ p, isDigit b = true) ∨ subject p = 0 ∨ 2 ^ 64 ≤ subject p

/-- What `atoull` makes of such a field is the number that it denotes. -/
theorem atoullValue_exact {n : Nat} (hp : Unambiguous p) (hn : atoullValue p = some n) :
    Decimal p n ∧ 1 ≤ n ∧ n < 2 ^ 64 := by
  obtain ⟨m, hm, hpos, hlt⟩ := ((atoull_exact_iff p).mpr hp).mp (by simp [hn])
  obtain rfl := Option.some.inj (hn.symm.trans (hm.atoull hpos hlt))
  exact ⟨hm, hpos, hlt⟩

/-- Numeric parameters are parsed exactly, for these fields and no others. -/
theorem numbers_exact_iff (hs : Sound H s) (ha : a ∈ s.conns)
    (hclient : Conn.client (s.conn a) = true) (hexec : Executes H (s.ctx a) env c₁ q r f)
    (hp : parameter f = some p) :
    Post (step H s (.ready a .read env)) (fun s' => Numeric s s' a f (env.clock 1) p)
        (fun e => e = .nullItemKey ∧ Decimal.Valid p) ↔
      (f.command = some .cmdSet → p ≠ []) ∧ Unambiguous p := by
  constructor
  · intro hpost
    have hne : f.command = some .cmdSet → p ≠ [] := by
      rintro hcmd rfl
      have hnull : step H s (.ready a .read env) = .error .nullDeref :=
        hs.step_null ha hclient hexec (by
          obtain ⟨-, hdata, hextra⟩ | ⟨hchg, -⟩ := parameter_eq hp
          · simp [ReadsNull, hcmd, hdata, hextra]
          · simp [hcmd] at hchg)
      rw [hnull] at hpost
      cases hpost.1
    refine ⟨hne, (atoull_exact_iff p).mp ?_⟩
    have hparsed := hs.parsed ha hclient hexec hp hne
    cases hstep : step H s (.ready a .read env) with
    | error e =>
        rw [hstep] at hpost hparsed
        exact ⟨fun _ => hpost.2, fun _ => hparsed.2⟩
    | ok s' =>
        rw [hstep] at hpost hparsed
        exact hparsed.accepted.symm.trans hpost.accepted
  · rintro ⟨hne, hexact⟩
    have hiff := (atoull_exact_iff p).mpr hexact
    refine (hs.parsed ha hclient hexec hp hne).mono (fun s' hs' => ⟨hs'.accepted.trans hiff,
      hs'.rejected, fun hcode => ?_⟩) fun e he => ⟨he.1, hiff.mp he.2⟩
    have hsome : atoullValue p ≠ none := hs'.accepted.mp (by rw [hcode]; decide)
    obtain ⟨n, hn⟩ := Option.ne_none_iff_exists'.mp hsome
    obtain ⟨hdecimal, hpos, hlt⟩ := atoullValue_exact hexact hn
    exact ⟨n, hdecimal, hpos, hlt, hs'.used hcode n hn⟩

/-- A SET of one byte with the parameter `x`. -/
def timedPacket (x : Bytes) (hx : x.length < protocolMaxExtraSize) : Packet :=
  { setPacket with extra := x, extra_lt := hx }

/-- A timeout of 42 seconds. -/
theorem numbers_exact_iff_fortytwo :
    ∃ s, start (Host.lp64 Allocator.unlimited) ⟨0, 2⟩ (emptyHeap ∅) 3
        (hearing .eof) = .ok (some s) ∧
      ∃ s', run (step (Host.lp64 Allocator.unlimited)) s
          (knock 1 :: arrive 4 (timedPacket (ascii "42") (by decide)).encode.dropLast) =
            .ok s' ∧
        ∃ f, Post (step (Host.lp64 Allocator.unlimited) s'
            (.ready 4 .read (hearing (.byte 50))))
          (fun s'' => Numeric s' s'' 4 f 0 (ascii "42"))
          (fun e => e = .nullItemKey ∧ Decimal.Valid (ascii "42")) ↔
          (f.command = some .cmdSet → ascii "42" ≠ []) ∧ Unambiguous (ascii "42") := by
  refine ⟨_, rfl, Exists.imp (fun s' hs' => ⟨hs'.1, ?_⟩) (exists_of_returns
    (p := executesTo (Host.lp64 Allocator.unlimited) 4 (hearing (.byte 50))
      fun _ f _ => parameter f == some (ascii "42")) ?_)⟩
  · obtain ⟨ha, hclient, c, q, r, f, c', hexec, -, hp⟩ := exists_of_executesTo hs'.2
    have hsolo := (solo_unlimited rfl (concerns_arrive 4 _)).2.of_ok hs'.1
    exact ⟨f, numbers_exact_iff hsolo.sound ha hclient hexec (beq_iff_eq.mp hp)⟩
  · decide +kernel

/-- A timeout that is no numeral is accepted. -/
theorem numbers_not_exact :
    ∃ s, start (Host.lp64 Allocator.unlimited) ⟨0, 2⟩ (emptyHeap ∅) 3
        (hearing .eof) = .ok (some s) ∧
      ∃ s', run (step (Host.lp64 Allocator.unlimited)) s
          (knock 1 :: arrive 4 (timedPacket (ascii "5x") (by decide)).encode.dropLast) =
            .ok s' ∧
        ∃ c q r f, Executes (Host.lp64 Allocator.unlimited) (s'.ctx 4)
            (hearing (.byte 120)) c q r f ∧ parameter f = some (ascii "5x") ∧
          ¬ Post (step (Host.lp64 Allocator.unlimited) s'
              (.ready 4 .read (hearing (.byte 120))))
            (fun s'' => Numeric s' s'' 4 f 0 (ascii "5x"))
            fun e => e = .nullItemKey ∧ Decimal.Valid (ascii "5x") := by
  refine ⟨_, rfl, Exists.imp (fun s' hs' => ⟨hs'.1, ?_⟩) (exists_of_returns
    (p := executesTo (Host.lp64 Allocator.unlimited) 4 (hearing (.byte 120))
      fun _ f c' => parameter f == some (ascii "5x") &&
        c'.conn.out.retcode == Code.success.toByte) ?_)⟩
  · obtain ⟨ha, hclient, c, q, r, f, c', hexec, hdone, htest⟩ := exists_of_executesTo hs'.2
    obtain ⟨hp, hcode⟩ := Bool.and_eq_true_iff.mp htest
    have hsolo := (solo_unlimited rfl (concerns_arrive 4 _)).2.of_ok hs'.1
    refine ⟨c, q, r, f, hexec, beq_iff_eq.mp hp, fun hpost => ?_⟩
    rw [hsolo.sound.step_executes ha hclient hexec, hdone, ok_bind] at hpost
    have hretcode : ((s'.put 4 c').conn 4).out.retcode = Code.success.toByte := by
      rw [put_conn_self, beq_iff_eq.mp hcode]
    obtain ⟨n, hn, -⟩ := hpost.accepted.mp (by rw [hretcode]; decide)
    have := hn.digits 120 (by decide)
    revert this
    decide
  · decide +kernel

end Lightcache.Server
