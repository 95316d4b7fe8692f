import Lightcache.Server.Reference

/-!
# What the data of others can do to an answer

Two runs execute the same commands, but for the data that are stored at some keys.
Their answers are then the same, except those of a GET of such a key.
-/

namespace Lightcache.Server

open Lightcache Lightcache.Foundation Lightcache.Hashtab Heap

variable {σ : Type} {H : Host σ} {s s' : State σ} {K : Set Bytes} {m m' m₁ m₁' : Ideal}
  {now : Int} {f : Fields} {k : Bytes}
  {call call' : Int × Fields} {reply reply' : UInt8 × Bytes} {endian : Endian}

/-- All of an entry but its data. -/
def Entry.stamps (e : Entry) : Int × Nat := (e.received, e.timeout)

/-- The caches differ at most in the data at the keys in `K`. -/
structure Veils (K : Set Bytes) (m m' : Ideal) : Prop where
  settings : m.settings = m'.settings
  unveiled : ∀ k, k ∉ K → m.entries k = m'.entries k
  stamps : ∀ k, (m.entries k).map Entry.stamps = (m'.entries k).map Entry.stamps

/-- The same command at the same time, or a SET of other data to a key in `K`. -/
structure Hides (K : Set Bytes) (call call' : Int × Fields) : Prop where
  time : call.1 = call'.1
  fields : call.2 = call'.2 ∨ call.2.command = some .cmdSet ∧ call.2.key ∈ K ∧
    call.2.data.length = call'.2.data.length ∧ call'.2 = { call.2 with data := call'.2.data }

/-- The command reads data at a key in `K`. -/
def Reveals (K : Set Bytes) (f : Fields) : Prop := f.command = some .cmdGet ∧ f.key ∈ K

/-- The answers agree; the text of the statistics does in its length. -/
structure SameAnswer (f : Fields) (reply reply' : UInt8 × Bytes) : Prop where
  code : reply.1 = reply'.1
  length : reply.2.length = reply'.2.length
  payload : f.command ≠ some .cmdGetStats → reply.2 = reply'.2

theorem Veils.refl (K : Set Bytes) (m : Ideal) : Veils K m m :=
  ⟨rfl, fun _ _ => rfl, fun _ => rfl⟩

theorem Veils.update (h : Veils K m m') {e e' : Option Entry}
    (hstamps : e.map Entry.stamps = e'.map Entry.stamps) (hunveiled : k ∉ K → e = e') :
    Veils K { m with entries := Function.update m.entries k e }
      { m' with entries := Function.update m'.entries k e' } := by
  refine ⟨h.settings, fun x hx => ?_, fun x => ?_⟩
  · by_cases hxk : x = k
    · subst hxk
      simpa using hunveiled hx
    · simpa [Function.update_of_ne hxk] using h.unveiled x hx
  · by_cases hxk : x = k
    · subst hxk
      simpa using hstamps
    · simpa [Function.update_of_ne hxk] using h.stamps x

/-- Whether an entry has expired does not depend on its data. -/
theorem Veils.living (h : Veils K m m') (now : Int) (k : Bytes) :
    (living (Expired now) m.entries k).map Entry.stamps =
      (living (Expired now) m'.entries k).map Entry.stamps := by
  have hk := h.stamps k
  rw [Foundation.living, Foundation.living]
  cases he : m.entries k with
  | none =>
      cases he' : m'.entries k with
      | none => rfl
      | some e' => simp [he, he'] at hk
  | some e =>
      cases he' : m'.entries k with
      | none => simp [he, he'] at hk
      | some e' =>
          rw [he, he'] at hk
          obtain ⟨hreceived, htimeout⟩ : e.received = e'.received ∧ e.timeout = e'.timeout := by
            simpa [Entry.stamps] using hk
          have hiff : Expired now e ↔ Expired now e' := by
            rw [Expired, Expired, hreceived, htimeout]
          by_cases hexpired : Expired now e
          · simp [Option.filter, hexpired, hiff.mp hexpired]
          · simp [Option.filter, hexpired, mt hiff.mpr hexpired, Entry.stamps, hreceived, htimeout]

theorem Veils.isSome (h : Veils K m m') (k : Bytes) :
    (m.entries k).isSome = (m'.entries k).isSome := by
  simpa using congrArg Option.isSome (h.stamps k)

theorem Veils.execute (h : Veils K m m') (now : Int) (f : Fields) :
    Veils K (m.execute now f) (m'.execute now f) := by
  rw [Ideal.execute, Ideal.execute]
  rcases hcmd : f.command with _ | cmd
  · exact h
  cases cmd with
  | cmdGet =>
      refine h.update (h.living now f.key) fun hk => ?_
      rw [Foundation.living, Foundation.living, h.unveiled f.key hk]
  | cmdSet =>
      dsimp only
      split
      · exact h
      · exact h.update rfl fun _ => rfl
  | cmdDelete => exact h.update rfl fun _ => rfl
  | cmdFlushAll => exact ⟨h.settings, fun _ _ => rfl, fun _ => rfl⟩
  | cmdChgSetting =>
      dsimp only
      split
      · exact h
      · exact ⟨by rw [h.settings], h.unveiled, h.stamps⟩
  | cmdGetSetting => exact h
  | cmdGetStats => exact h

/-- A SET at a veiled key is accepted or refused whatever its data. -/
theorem Veils.set (h : Veils K m m') (hcmd : f.command = some .cmdSet) (hk : f.key ∈ K)
    {data : Bytes} (hlength : f.data.length = data.length) (now : Int) :
    Veils K (m.execute now f) (m'.execute now { f with data := data }) ∧
      m.answer endian now f = m'.answer endian now { f with data := data } := by
  have hcmd' : ({ f with data := data } : Fields).command = some .cmdSet := hcmd
  have hempty : f.data = [] ↔ data = [] := by
    rw [← List.length_eq_zero_iff, hlength, List.length_eq_zero_iff]
  have hinvalid : InvalidSet f ↔ InvalidSet { f with data := data } :=
    or_congr hempty Iff.rfl
  rw [Ideal.execute, Ideal.execute, Ideal.answer, Ideal.answer, hcmd, hcmd']
  dsimp only
  by_cases hi : InvalidSet f
  · rw [if_pos hi, if_pos (hinvalid.mp hi), if_pos hi, if_pos (hinvalid.mp hi)]
    exact ⟨h, rfl⟩
  · rw [if_neg hi, if_neg (mt hinvalid.mpr hi), if_neg hi, if_neg (mt hinvalid.mpr hi)]
    exact ⟨h.update rfl fun hnot => absurd hk hnot, rfl⟩

theorem Veils.answer (h : Veils K m m') (now : Int) (hf : ¬ Reveals K f) :
    m.answer endian now f = m'.answer endian now f := by
  rw [Ideal.answer, Ideal.answer]
  rcases hcmd : f.command with _ | cmd
  · rfl
  cases cmd with
  | cmdGet =>
      have hk : f.key ∉ K := fun hk => hf ⟨hcmd, hk⟩
      dsimp only
      rw [Foundation.living, Foundation.living, h.unveiled f.key hk]
  | cmdDelete =>
      dsimp only
      rw [h.isSome f.key]
  | cmdGetSetting =>
      dsimp only
      rw [h.settings]
  | _ => rfl

/-- What is executed on one cache changes the other one alike, and is answered alike. -/
theorem Veils.executes (h : Veils K m m') (hcall : Hides K call call') :
    Veils K (m.execute call.1 call.2) (m'.execute call'.1 call'.2) ∧
      (¬ Reveals K call.2 → m.answer endian call.1 call.2 =
        m'.answer endian call'.1 call'.2) := by
  rw [← hcall.time]
  rcases hcall.fields with heq | ⟨hcmd, hk, hlength, heq⟩
  · rw [← heq]
    exact ⟨h.execute _ _, h.answer _⟩
  · rw [heq]
    obtain ⟨hveils, hanswer⟩ := h.set hcmd hk hlength call.1
    exact ⟨hveils, fun _ => hanswer⟩

/-- Only the text of the statistics is left open. -/
theorem Ideal.stats_of_answer (h : (m.answer endian now f).2 = none) :
    f.command = some .cmdGetStats := by
  rw [Ideal.answer] at h
  rcases hcmd : f.command with _ | cmd
  · simp [hcmd] at h
  cases cmd <;> simp [hcmd] at h ⊢
  · split at h <;> cases h
  · split at h <;> cases h

theorem Ideal.Serves.sameAnswer (hs : Ideal.Serves endian m call reply m₁)
    (hs' : Ideal.Serves endian m' call' reply' m₁')
    (heq : m.answer endian call.1 call.2 = m'.answer endian call'.1 call'.2) :
    SameAnswer call.2 reply reply' := by
  obtain ⟨-, hcode, hpayload⟩ := hs
  obtain ⟨-, hcode', hpayload'⟩ := hs'
  rw [← heq] at hcode' hpayload'
  have hreply := hcode.trans hcode'.symm
  cases ha : (m.answer endian call.1 call.2).2 with
  | none =>
      rw [ha] at hpayload hpayload'
      exact ⟨hreply, hpayload.trans hpayload'.symm,
        fun hstats => absurd (Ideal.stats_of_answer ha) hstats⟩
  | some payload =>
      rw [ha] at hpayload hpayload'
      have hsame : reply.2 = reply'.2 := hpayload.trans hpayload'.symm
      exact ⟨hreply, congrArg List.length hsame, fun _ => hsame⟩

/-- One command on two caches. -/
theorem Veils.serves (h : Veils K m m') (hcall : Hides K call call')
    (hs : Ideal.Serves endian m call reply m₁) (hs' : Ideal.Serves endian m' call' reply' m₁') :
    Veils K m₁ m₁' ∧ (¬ Reveals K call.2 → SameAnswer call.2 reply reply') := by
  obtain ⟨hveils, hanswer⟩ := h.executes hcall
  refine ⟨?_, fun hf => hs.sameAnswer hs' (hanswer hf)⟩
  rw [hs.1, hs'.1]
  exact hveils

/-! ## Every run -/

/-- The answers of two exchanges agree unless their command reads data at a key in `K`. -/
def Conceals (K : Set Bytes) (x x' : Exchange) : Prop :=
  ¬ Reveals K x.fields → SameAnswer x.fields x.answer x'.answer

theorem Veils.allows {log log' : List Exchange}
    (hcalls : List.Forall₂ (fun x x' => Hides K (Exchange.call x) (Exchange.call x')) log log')
    (h : Veils K m m')
    (hallows : Allows (Ideal.Serves endian) m (log.map Exchange.call)
      (log.map Exchange.answer) m₁)
    (hallows' : Allows (Ideal.Serves endian) m' (log'.map Exchange.call)
      (log'.map Exchange.answer) m₁') :
    Veils K m₁ m₁' ∧ List.Forall₂ (Conceals K) log log' := by
  induction hcalls generalizing m m' with
  | nil =>
      cases hallows
      cases hallows'
      exact ⟨h, .nil⟩
  | cons hcall _ ih =>
      rw [List.map_cons, List.map_cons] at hallows hallows'
      obtain - | ⟨hserves, htail⟩ := hallows
      obtain - | ⟨hserves', htail'⟩ := hallows'
      obtain ⟨hveils, hanswer⟩ := h.serves hcall hserves hserves'
      obtain ⟨hlast, hrest⟩ := ih hveils htail htail'
      exact ⟨hlast, .cons hanswer hrest⟩

def hiddenPacket (v : UInt8) : Packet :=
  ⟨⟨1, ascii "k", [v], ascii "9"⟩, setPacket.key_lt,
    by simp [protocolMaxDataSize, protocolMaxKeySize], setPacket.extra_lt⟩

/-- A key is stored and deleted. -/
def storesAndDeletes (v : UInt8) : List Input :=
  arrive 4 (hiddenPacket v).encode ++ Server.take 4 8 ++ arrive 4 deletePacket.encode

theorem concerns_storesAndDeletes (v : UInt8) : ∀ i ∈ storesAndDeletes v, Concerns 4 i := by
  intro i hi
  simp only [storesAndDeletes, List.mem_append] at hi
  rcases hi with (hi | hi) | hi
  · exact concerns_arrive 4 _ i hi
  · exact concerns_take 4 _ i hi
  · exact concerns_arrive 4 _ i hi

/-- Whether the command that an input completes is one of `fs`. -/
def executesOneOf (fs : List Fields) (H : Host σ) (s : State σ) (i : Input) : Bool :=
  match executedBy H s i with
  | some f => fs.contains f
  | none => true

theorem completed_of_executesOneOf {fs : List Fields} {i : Input}
    (hfs : ∀ f ∈ fs, Complete f) (h : executesOneOf fs H s i = true) : Completed H s i := by
  intro f hf
  rw [executesOneOf, hf] at h
  exact hfs f (List.contains_iff_mem.mp h)

/-- What the two runs of the example have in common. -/
theorem meets_storesAndDeletes {s : State (Finset ℕ)} {v : UInt8}
    (hstart : start (Host.lp64 Allocator.unlimited) ⟨0, 2⟩ (emptyHeap ∅) 3
      (hearing .eof) = .ok (some s))
    (htest : meetsTest (step (Host.lp64 Allocator.unlimited))
      (executesOneOf [(hiddenPacket v).toFields, deletePacket.toFields]
        (Host.lp64 Allocator.unlimited)) s (knock 1 :: storesAndDeletes v) = true) :
    Meets (step (Host.lp64 Allocator.unlimited))
      (fun s i => Careful (Host.lp64 Allocator.unlimited) s i ∧
        Completed (Host.lp64 Allocator.unlimited) s i) s (knock 1 :: storesAndDeletes v) := by
  refine (solo_unlimited hstart (concerns_storesAndDeletes v)).1.and
    (meets_of_test htest fun _ _ _ => completed_of_executesOneOf fun f hf => ?_)
  simp only [List.mem_cons, List.not_mem_nil, or_false] at hf
  rcases hf with rfl | rfl
  · exact ⟨fun _ _ _ => ⟨(by decide : ascii "k" ≠ []), (by decide : 0 ∉ ascii "k")⟩,
      fun _ _ => (by decide : ascii "9" ≠ [])⟩
  · exact ⟨by decide, by decide⟩

end Lightcache.Server
