import Lightcache.Server.History
import Lightcache.Server.Payload

/-!
# Every key has a history of its own

A GET is answered from the commands on its own key, whatever happens to other
keys, as long as no command meets an entry that `strcmp` takes for its own, the
ages fit into 32 bits, and every request gets the memory to be read.
-/

namespace Lightcache.Server

open Lightcache Lightcache.Foundation Lightcache.Hashtab Heap

variable {σ : Type} {H : Host σ} {s s' : State σ} {i : Input} {h : Heap σ} {set : Settings}
  {q : Addr} {now : Int} {f : Fields} {res : Result} {k : Bytes} {e : Entry}
  {past : List Exchange} {x : Exchange}

/-- The answer to a GET that finds `o`. -/
def answerOf : Option Entry → UInt8 × Bytes
  | some e => (Code.success.toByte, e.data)
  | none => (Code.keyNotexists.toByte, [])

def Exchange.answer (x : Exchange) : UInt8 × Bytes := (x.code, x.payload)

/-- A GET is answered from the living entries of the map. -/
theorem Outcome.answer {m : Bytes → Option Entry}
    (hout : Outcome H h s.cache set q now f res)
    (hholds : ∀ x ∈ s.cache.live, ∀ e, Holds h x.2 e ↔ Holds s.heap x.2 e)
    (hapart : Apart s.cache f) (hm : Mirrors s m) (hget : f.command = some .cmdGet) :
    (res.code.toByte, res.payload) = answerOf (living (Expired now) m f.key) := by
  have hlooks : Looks f := by simp [Looks, hget]
  have hmem : ∀ {name v e}, (name, v) ∈ s.cache.live → Clash s.cache.realsize name f.key →
      Holds h v e → m f.key = some e := by
    intro name v e hv hclash he
    obtain rfl : name = f.key := hapart hlooks _ hv hclash
    exact (hm _ _).mp ⟨v, hv, (hholds _ hv _).mp he⟩
  cases hout with
  | getMiss cmd miss =>
      have hnone : m f.key = none := Option.eq_none_iff_forall_ne_some.mpr fun e he => by
        obtain ⟨v, hv, -⟩ := (hm f.key e).mpr he
        exact miss _ hv (.refl _ _)
      simp [unchanged, living, hnone, answerOf]
  | getExpired cmd before clash holds expired =>
      have hsome := hmem (by simp [before]) clash holds
      simp [living, hsome, Option.filter_some, expired, answerOf]
  | getHit cmd live clash holds fresh =>
      have hsome := hmem live clash holds
      simp [unchanged, living, hsome, Option.filter_some, fresh, answerOf]
  | _ => simp_all

/-- A DELETE is answered from the entries that the map has, living or not. -/
theorem Outcome.deletes {m : Bytes → Option Entry}
    (hout : Outcome H h s.cache set q now f res)
    (hheld : ∀ x ∈ s.cache.live, ∃ e, Holds s.heap x.2 e)
    (hapart : Apart s.cache f) (hm : Mirrors s m) (hdelete : f.command = some .cmdDelete) :
    res.code = (if (m f.key).isSome then .success else .keyNotexists) ∧ res.payload = [] := by
  cases hout with
  | deleteMiss cmd miss =>
      have hnone : m f.key = none := Option.eq_none_iff_forall_ne_some.mpr fun e he => by
        obtain ⟨v, hv, -⟩ := (hm f.key e).mpr he
        exact miss _ hv (.refl _ _)
      simp [hnone, unchanged]
  | @delete name v kept cmd before clash =>
      have hmem : (name, v) ∈ s.cache.live := by simp [before]
      obtain rfl : name = f.key := hapart (by simp [Looks, cmd]) _ hmem clash
      obtain ⟨e, he⟩ := hheld _ hmem
      have hsome : m f.key = some e := (hm _ _).mp ⟨v, hmem, he⟩
      simp [hsome]
  | _ => simp_all

/-! ## Isolation -/

/-- The exchanges that can change what the cache has at `k`. -/
def about (k : Bytes) (log : List Exchange) : List Exchange :=
  log.filter fun x => x.op.Concerns k

theorem replay_about (dead : Int → Entry → Prop) [∀ t, DecidablePred (dead t)]
    (log : List Exchange) (k : Bytes) : replay dead (about k log) k = replay dead log k := by
  have hops : ops (about k log) = (ops log).filter fun x => x.2.Concerns k := by
    rw [ops, ops, about, List.filter_map]
    rfl
  rw [replay, hops, lazily_filter, replay]

/-- A SET of `k` that has succeeded. -/
structure Exchange.Stores (x : Exchange) (k : Bytes) : Prop where
  command : x.fields.command = some .cmdSet
  code : x.code = Code.success.toByte
  key : x.fields.key = k

theorem Exchange.Stores.op (h : x.Stores k) : x.op = .put k x.entry := by
  rw [Exchange.op, h.command]
  dsimp only
  rw [if_pos h.code, h.key]

theorem Exchange.op_get (hget : x.fields.command = some .cmdGet) :
    x.op = .look x.fields.key := by
  rw [Exchange.op, hget]

/-- What a GET owes to the commands before it. -/
structure Isolated (past : List Exchange) (x : Exchange) : Prop where
  /-- The commands on other keys have no influence on the answer. -/
  own : x.fields.command = some .cmdGet → x.answer =
    answerOf (living (Lapsed x.time) (replay Lapsed (about x.fields.key past)) x.fields.key)
  /-- A value that was stored is found until a command on its key ends its life. -/
  kept : x.fields.command = some .cmdGet → ∀ older y newer, past = older ++ y :: newer →
    y.Stores x.fields.key →
    (∀ z ∈ newer, z.op.Concerns x.fields.key →
      z.fields.command = some .cmdGet ∧ ¬ Lapsed z.time y.entry) →
    ¬ Lapsed x.time y.entry → x.answer = (Code.success.toByte, y.fields.data)

theorem isolated_of_answer (h : x.fields.command = some .cmdGet → x.answer =
    answerOf (living (Lapsed x.time) (replay Lapsed past) x.fields.key)) : Isolated past x := by
  refine ⟨fun hget => ?_, fun hget older y newer hpast hstores hnewer hfresh => ?_⟩
  · rw [h hget]
    simp only [living, replay_about]
  · have hstored : replay Lapsed past x.fields.key = some y.entry := by
      rw [hpast, replay, ops, List.map_append, List.map_cons, hstores.op]
      refine lazily_kept fun z hz hconcerns => ?_
      obtain ⟨w, hw, rfl⟩ := List.mem_map.mp hz
      obtain ⟨hlook, hlives⟩ := hnewer w hw hconcerns
      rw [Exchange.op_get hlook] at hconcerns ⊢
      exact ⟨congrArg _ hconcerns, hlives⟩
    rw [h hget, show living (Lapsed x.time) (replay Lapsed past) x.fields.key = some y.entry from
      living_eq_some.mpr ⟨hstored, hfresh⟩]
    rfl

/-- The answer of one exchange, from the map that its past gives. -/
theorem Effect.answer {dead : Int → Entry → Prop} [∀ t, DecidablePred (dead t)]
    {x : State σ × List Exchange} (heff : Effect H x.1 i s') (hr : Recorded H dead x)
    (hi : Discerning H dead x.1 i) {y : Exchange} (hy : exchanged x.1 s' i = [y])
    (hget : y.fields.command = some .cmdGet) :
    y.answer = answerOf (living (dead y.time) (replay dead x.2) y.fields.key) := by
  cases heff with
  | quiet cache holds silent =>
      rw [silent] at hy
      cases hy
  | command input mem executes outcome holds shifts new logged =>
      subst input
      obtain rfl := (List.cons.inj (logged.symm.trans hy)).1
      have hf := executes.executedBy mem
      refine (outcome.answer holds (hi.distinct _ hf) hr.mirrors hget).trans
        (congrArg answerOf (living_of_iff fun e he => ?_))
      exact hi.punctual _ hf hget e ((hr.mirrors _ _).mpr he)

/--
What the isolation of keys rests on: responses are left alone until they are sent, a
command finds entries of its own key only, a GET is not misled about the age of its
entry, and a request gets the memory for its fields.
-/
structure Sheltered (H : Host σ) (s : State σ) (i : Input) : Prop where
  considerate : Considerate H s i
  distinct : Distinct H s i
  punctual : Punctual H Lapsed s i
  supplied : Supplied H s i

theorem Sheltered.discerning (h : Sheltered H s i) : Discerning H Lapsed s i :=
  ⟨h.considerate.1, h.distinct, h.punctual⟩

/-- Whether `strcmp` tells the key of the command from all other names in the table. -/
def distinctTest (H : Host σ) (s : State σ) (i : Input) : Bool :=
  match executedBy H s i with
  | some f => s.cache.items.all fun it => it.name == f.key || cstr it.name != cstr f.key
  | none => true

theorem distinct_of_test (h : distinctTest H s i = true) : Distinct H s i := by
  intro f hf _ x hx hclash
  obtain ⟨it, hit, -, rfl⟩ := mem_live.mp hx
  rw [distinctTest, hf] at h
  have hname := List.all_eq_true.mp h it (Multiset.mem_coe.mp hit)
  rw [Bool.or_eq_true, beq_iff_eq, bne_iff_ne] at hname
  exact hname.resolve_right fun hne => hne hclash.2

/-- Whether a command comes when all ages fit into 32 bits. -/
def agesTest (H : Host σ) (s : State σ) (i : Input) : Bool :=
  (executedBy H s i).isNone || s.cache.items.all fun it =>
    match it.val.bind s.heap.reqs with
    | none => true
    | some r => decide (r.received ≤ i.time ∧ i.time - r.received < 2 ^ 32)

theorem expired_iff_of_test (h : agesTest H s i = true) (hf : executedBy H s i = some f)
    (he : Contains s k e) : Expired i.time e ↔ Lapsed i.time e := by
  obtain ⟨v, hv, q, r, hval, hcached⟩ := he
  obtain ⟨it, hit, -, hitem⟩ := mem_live.mp hv
  obtain ⟨-, rfl⟩ := Prod.mk.inj hitem
  rw [agesTest, hf, Option.isNone_some, Bool.false_or] at h
  have hage := List.all_eq_true.mp h it (Multiset.mem_coe.mp hit)
  rw [hval, Option.bind_some, hcached.req] at hage
  have hreceived := hcached.filled.received
  simp only [decide_eq_true_eq] at hage
  simp only [Expired, Lapsed, uint32]
  omega

theorem punctual_of_test (h : agesTest H s i = true) : Punctual H Lapsed s i := by
  cases i with
  | idle env => trivial
  | ready a ev env =>
      cases ev with
      | write => trivial
      | read => exact fun f hf _ e he => expired_iff_of_test h hf he

/-- The first client's value has been deleted, and the second one looks for it. -/
def readsDeleted : List Input := twoClients ++ Server.take 6 8 ++ arrive 6 getPacket.encode

/-- A value of one byte for a key that ends in the byte `k` after a NUL. -/
def nulPacket (k v : UInt8) : Packet :=
  ⟨⟨1, [97, 0, k], [v], ascii "9"⟩, by simp [protocolMaxKeySize],
    by simp [protocolMaxDataSize, protocolMaxKeySize],
    setPacket.extra_lt⟩

def getNulPacket (k : UInt8) : Packet :=
  ⟨⟨0, [97, 0, k], [], []⟩, by simp [protocolMaxKeySize],
    (by decide : ([] : Bytes).length < protocolMaxDataSize),
    (by decide : ([] : Bytes).length < protocolMaxExtraSize)⟩

/-- Two keys of one bucket that agree up to their first NUL. -/
def mergedKeys : List Input :=
  knock 1 :: arrive 4 (nulPacket 90 118).encode ++ Server.take 4 8 ++
    arrive 4 (nulPacket 92 119).encode ++ Server.take 4 8 ++
    arrive 4 (getNulPacket 90).encode

end Lightcache.Server
