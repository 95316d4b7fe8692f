import Lightcache.Server.Round

/-!
# Commands that fail

A command faults on a missing field exactly when it uses one, and a command
that is answered with an error leaves the cache alone, unless its item was
linked into the table before the growth failed.
-/

namespace Lightcache.Server

open Lightcache Lightcache.Foundation Lightcache.Hashtab Heap

variable {σ : Type} {H : Host σ} {s s' : State σ} {a b q : Addr} {c c' c₁ : Ctx σ}
  {r : Request} {f : Fields} {Q B W : Multiset Addr} {env : Env} {n : Nat}

/-! ## Missing fields -/

/-- The commands that the server may be asked for next. -/
def NullExact (H : Host σ) (s : State σ) : Prop :=
  ∀ a ∈ s.conns, Conn.client (s.conn a) = true → ∀ env c q r f,
    Executes H (s.ctx a) env c q r f →
      (executeCmd H c env ≠ .error .nullDeref ↔ ¬ ReadsNull s.cache f)

theorem Sound.nullExact (hs : Sound H s) : NullExact H s := by
  intro a ha hclient env c q r f hexec
  obtain ⟨ret, hrun⟩ := hexec.run
  obtain ⟨q', r', f', hexec', hserving, hb, hconn⟩ := hs.executing ha hclient hrun
  obtain ⟨-, rfl, rfl, rfl⟩ := hexec'.unique hexec
  have hnull := executeCmd_null hserving (by rw [hconn]) env
  rw [hb.cache] at hnull
  exact not_congr hnull

section Runs

variable {settings : Settings} {heap : Heap σ} {fd : Nat}

/-- In every state a command reads through NULL exactly when a field is missing. -/
theorem null_fields_exact (hboot : Boot H heap)
    (hstart : start H settings heap fd env = .ok (some s)) {inputs : List Input}
    (hcare : Meets (step H) (Careful H) s inputs) :
    Post (run (step H) s inputs) (NullExact H) StepFault :=
  ((sound_start hboot hstart).run hcare).imp fun _ hs => hs.nullExact

/-- `GET_SETTING` without the name of a setting. -/
def namelessPacket : Packet := ⟨⟨3, [], [], []⟩, by decide, by decide, by decide⟩

/-- Whether the last byte of a request makes the server read through NULL. -/
def crashes (H : Host σ) (a : Addr) (b : UInt8) (s : State σ) : Bool :=
  match readRequest H (touched (s.ctx a) (hearing (.byte b))) (.byte b) with
  | .ok (c, _, received) =>
      received && stops (executeCmd H c (hearing (.byte b))) .nullDeref
  | .error _ => false

/-- All but the last byte have arrived, and with the last one the command faults. -/
theorem nameless_crashes :
    ∃ s, start (Host.lp64 Allocator.unlimited) ⟨0, 2⟩ (emptyHeap ∅) 3
        (hearing .eof) = .ok (some s) ∧
      ∃ s', run (step (Host.lp64 Allocator.unlimited)) s
          (knock 1 :: arrive 4 (namelessPacket.encode.take 11)) = .ok s' ∧
        ∃ c ret, readRequest (Host.lp64 Allocator.unlimited)
            (touched (s'.ctx 4) (hearing (.byte 0))) (.byte 0) = .ok (c, ret, true) ∧
          executeCmd (Host.lp64 Allocator.unlimited) c (hearing (.byte 0)) =
            .error .nullDeref := by
  refine ⟨_, rfl, Exists.imp (fun s' hs' => ⟨hs'.1, ?_⟩) (exists_of_returns
    (p := crashes (Host.lp64 Allocator.unlimited) 4 0) ?_)⟩
  · have htest := hs'.2
    rw [crashes] at htest
    split at htest
    · rename_i c ret received hread
      obtain ⟨hreceived, hcrash⟩ := Bool.and_eq_true_iff.mp htest
      exact ⟨c, ret, by rw [hread, hreceived], eq_error_of_stops hcrash⟩
    · cases htest
  · decide +kernel

theorem null_fields_exact_nameless :
    ∃ s, start (Host.lp64 Allocator.unlimited) ⟨0, 2⟩ (emptyHeap ∅) 3
        (hearing .eof) = .ok (some s) ∧
      ∃ s', run (step (Host.lp64 Allocator.unlimited)) s
          (knock 1 :: arrive 4 (namelessPacket.encode.take 11)) = .ok s' ∧
        (∃ c ret, readRequest (Host.lp64 Allocator.unlimited)
          (touched (s'.ctx 4) (hearing (.byte 0))) (.byte 0) = .ok (c, ret, true)) ∧
        NullExact (Host.lp64 Allocator.unlimited) s' := by
  obtain ⟨s, hs, s', hs', c, ret, hread, -⟩ := nameless_crashes
  have hcare := (solo_unlimited hs (concerns_arrive 4 (namelessPacket.encode.take 11))).1
  exact ⟨s, hs, s', hs', ⟨c, ret, hread⟩,
    (null_fields_exact (boot_emptyHeap rfl) hs hcare).of_ok hs'⟩

theorem null_fields_crash :
    ∃ s, start (Host.lp64 Allocator.unlimited) ⟨0, 2⟩ (emptyHeap ∅) 3
        (hearing .eof) = .ok (some s) ∧
      (∃ s', run (step (Host.lp64 Allocator.unlimited)) s
          (knock 1 :: arrive 4 (namelessPacket.encode.take 11)) = .ok s' ∧
        ∃ c ret, readRequest (Host.lp64 Allocator.unlimited)
            (touched (s'.ctx 4) (hearing (.byte 0))) (.byte 0) = .ok (c, ret, true) ∧
          executeCmd (Host.lp64 Allocator.unlimited) c (hearing (.byte 0)) =
            .error .nullDeref) ∧
      run (step (Host.lp64 Allocator.unlimited)) s
          (knock 1 :: arrive 4 namelessPacket.encode) = .error .nullDeref := by
  obtain ⟨s, hs, hcrash⟩ := nameless_crashes
  refine ⟨s, hs, hcrash, ?_⟩
  obtain rfl := Option.some.inj (Except.ok.inj hs)
  exact eq_error_of_stops (by decide +kernel)

end Runs

/-! ## The number of buckets -/

/-- The table has `n` buckets, or the command has succeeded. -/
def Sized (n : Nat) (c : Ctx σ) : Prop :=
  c.conn.out.retcode ≠ Code.success.toByte → c.cache.realsize = n

theorem sendResponse_sized (hn : c.cache.realsize = n) (code : Code) :
    Ensures (sendResponse c code) (Sized n) :=
  (ensures_true _).bind fun _ _ _ => hn

theorem addResponse_success (data : Option Addr) (k : Nat) :
    Ensures (addResponse c data k .success) fun c' =>
      c'.conn.out.retcode = Code.success.toByte :=
  (ensures_true _).bind fun _ _ => rfl

theorem getKeyNotexists_sized (hn : c.cache.realsize = n) :
    Ensures (getKeyNotexists c) (Sized n) :=
  sendResponse_sized (c := c.withStats _) hn _

theorem hfree_size (ht : Cache) (ref : ItemRef) : (hfree ht ref).realsize = ht.realsize := by
  rw [hfree]
  split <;> rfl

theorem evict_size (ref : ItemRef) :
    Ensures (evict H c ref) fun c' => c'.cache.realsize = c.cache.realsize := by
  have hdel : Ensures (delItem H c ref) fun c' => c'.cache.realsize = c.cache.realsize :=
    (ensures_true _).bind fun it _ => (ensures_true _).bind fun heap _ => rfl
  exact hdel.bind fun c₁ h₁ => .pure ((hfree_size c₁.cache ref).trans h₁)

theorem executeGet_sized (r : Request) :
    Ensures (executeGet H c r) (Sized c.cache.realsize) := by
  refine (ensures_true _).bind fun key _ => (ensures_true _).bind fun ref _ => ?_
  cases ref with
  | none => exact sendResponse_sized rfl _
  | some ref =>
      refine (ensures_true _).bind fun it _ => ?_
      dsimp only
      cases it.val with
      | none => trivial
      | some q =>
          refine (ensures_true _).bind fun cached _ => (ensures_true _).bind fun extra _ =>
            (ensures_true _).bind fun val _ => ?_
          cases val with
          | none => trivial
          | some val =>
              dsimp only
              split
              · exact (evict_size ref).bind fun c₁ h₁ => getKeyNotexists_sized h₁
              · exact (addResponse_success ..).bind fun c₁ h₁ hne => absurd h₁ hne

theorem keepRequest_sized (q : Addr) : Ensures (keepRequest c q) (Sized n) :=
  (ensures_true _).bind fun _ _ => (addResponse_success ..).imp fun _ h hne => absurd h hne

theorem executeSet_sized (q : Addr) (r : Request) :
    Ensures (executeSet H c q r) (Sized c.cache.realsize) := by
  rw [executeSet, validateSet]
  split
  · exact sendResponse_sized rfl _
  refine (ensures_true _).bind fun extra _ => (ensures_true _).bind fun val _ => ?_
  cases val with
  | none => exact sendResponse_sized rfl _
  | some val =>
      refine (ensures_true _).bind fun key _ => (hset_size ..).bind fun x hsize => ?_
      obtain ⟨ret, cache, mem⟩ := x
      cases ret with
      | herror => exact sendResponse_sized (hsize (by simp)) _
      | hexists => exact (ensures_true _).bind fun c₁ _ => keepRequest_sized q
      | hsuccess => exact keepRequest_sized q

theorem executeDelete_sized (r : Request) :
    Ensures (executeDelete H c r) (Sized c.cache.realsize) := by
  refine (ensures_true _).bind fun key _ => (ensures_true _).bind fun ref _ => ?_
  cases ref with
  | none => exact sendResponse_sized rfl _
  | some ref => exact (evict_size ref).bind fun _ h => sendResponse_sized h _

theorem executeFlushAll_sized : Ensures (executeFlushAll H c) (Sized n) :=
  (ensures_true _).bind fun _ _ => (addResponse_success ..).imp fun _ h hne => absurd h hne

theorem executeChgSetting_sized (r : Request) :
    Ensures (executeChgSetting c r) (Sized c.cache.realsize) := by
  rw [executeChgSetting]
  split
  · exact sendResponse_sized rfl _
  refine (ensures_true _).bind fun key _ => (ensures_true _).bind fun names _ => ?_
  split
  · refine (ensures_true _).bind fun data _ => (ensures_true _).bind fun val _ => ?_
    cases val <;> exact sendResponse_sized rfl _
  · exact sendResponse_sized rfl _

theorem executeGetSetting_sized (r : Request) :
    Ensures (executeGetSetting H c r) (Sized c.cache.realsize) := by
  refine (ensures_true _).bind fun key _ => (ensures_true _).bind fun names _ => ?_
  split
  · rcases c.heap.mallocBytes H 8 with ⟨_ | ival, heap⟩
    · exact sendResponse_sized rfl _
    · exact (addResponse_success ..).imp fun _ h hne => absurd h hne
  · exact sendResponse_sized rfl _

theorem executeGetStats_sized :
    Ensures (executeGetStats H c env) (Sized c.cache.realsize) := by
  rw [executeGetStats]
  rcases c.heap.mallocBytes H lightcacheStatsSize with ⟨_ | sval, heap⟩
  · exact sendResponse_sized rfl _
  · exact (ensures_true _).bind fun bytes _ =>
      (addResponse_success ..).imp fun _ h hne => absurd h hne

/-- Only a command that succeeds makes the table grow. -/
theorem executeCmd_sized : Ensures (executeCmd H c env) (Sized c.cache.realsize) := by
  rw [executeCmd]
  split
  · trivial
  refine (ensures_true _).bind fun x _ => ?_
  obtain ⟨q, r⟩ := x
  dsimp only
  split
  · exact executeGet_sized _
  · exact executeSet_sized _ _
  · exact executeDelete_sized _
  · exact executeFlushAll_sized
  · exact executeChgSetting_sized _
  · exact executeGetSetting_sized _
  · exact executeGetStats_sized
  · exact sendResponse_sized rfl _

/-! ## Atomicity -/

/--
The request `q` has left nothing behind: the entries of `s` are as before,
except for one that had expired at `now`.
-/
structure Atomic (H : Host σ) (s : State σ) (q : Addr) (now : Int) (c' : Ctx σ) :
    Prop where
  contents : ∃ gone, s.cache.live = gone + c'.cache.live ∧
    ∀ x ∈ gone, ∃ e, Holds s.heap x.2 e ∧ Expired now e
  /-- A key is still looked for in the same bucket. -/
  buckets : c'.cache.realsize = s.cache.realsize
  entries : ∀ x ∈ c'.cache.live, ∀ e, Holds s.heap x.2 e → Holds c'.heap x.2 e
  allocated : ∀ b ∈ c'.cache.blocks, b ∈ H.alloc.live c'.heap.mem
  unlinked : ∀ x ∈ c'.cache.live, x.2 ≠ some q

theorem Changed.holds {h h' : Heap σ} {ht ht' : Cache} {gone new kept : Contents}
    {Q' B' : Multiset Addr} (hc : Changed H h ht h' ht' gone new kept Q B Q' B' W)
    {x : Bytes × Option Addr} (hx : x ∈ kept) {e : Entry} (he : Holds h x.2 e) :
    Holds h' x.2 e :=
  Holds.agree (show (x.1, x.2) ∈ kept from hx) he (hc.agree.mono (Multiset.le_add_right ..)
    (Multiset.le_add_right ..))

/-- The entries that a failed command removes. -/
theorem Outcome.failed {h : Heap σ} {ht : Cache} {set : Settings} {now : Int}
    {res : Result} (ho : Outcome H h ht set q now f res) (hcode : res.code ≠ .success) :
    res.new = 0 ∧ ∀ x ∈ res.gone, ∃ e, Holds h x.2 e ∧ Expired now e := by
  cases ho with
  | getExpired cmd before clash holds expired =>
      refine ⟨rfl, fun x hx => ?_⟩
      obtain rfl := Multiset.mem_singleton.mp hx
      exact ⟨_, holds, expired⟩
  | setNew => exact absurd rfl hcode
  | setOver => exact absurd rfl hcode
  | delete => exact absurd rfl hcode
  | flushAll => exact absurd rfl hcode
  | _ => exact ⟨rfl, by simp [unchanged]⟩

theorem Beside.holds_iff (hb : Beside c c' Q B) {x : Bytes × Option Addr}
    (hx : x ∈ c.cache.live) {e : Entry} : Holds c'.heap x.2 e ↔ Holds c.heap x.2 e := by
  have hagree := hb.agree.mono (Multiset.le_add_right (cachedReqs c.cache.live) Q)
    (Multiset.le_add_right (cachedBufs c.heap c.cache.live) B)
  have hmem : (x.1, x.2) ∈ c.cache.live := hx
  refine ⟨fun he => ?_, fun he => he.agree hmem hagree⟩
  refine he.agree hmem ⟨fun a ha => (hagree.reqs a ha).symm, fun a ha => ?_⟩
  rw [cachedBufs_congr hagree.reqs] at ha
  exact (hagree.bufs a ha).symm

theorem Code.toByte_injective : Function.Injective Code.toByte := by
  intro x y h
  cases x <;> cases y <;> first | rfl | cases h

/-- A command that fails is atomic, unless a growth was refused after its item was linked. -/
theorem failed_atomic_iff (hs : Sound H s) (ha : a ∈ s.conns)
    (hclient : Conn.client (s.conn a) = true)
    (hexec : Executes H (s.ctx a) env c q r f) (hdone : executeCmd H c env = .ok c') :
    (c'.conn.out.retcode ≠ Code.success.toByte → Atomic H s q (env.clock 1) c') ↔
      ¬ GrowthRefused H (arrived c q r env).heap s.cache q f := by
  obtain ⟨ret, hrun⟩ := hexec.run
  obtain ⟨q', r', f', hexec', hserving, hb, hconn⟩ := hs.executing ha hclient hrun
  obtain ⟨-, rfl, rfl, rfl⟩ := hexec'.unique hexec
  have hanswered := (executeCmd_post hserving (by rw [hconn]) env).of_ok hdone
  have hcache : c.cache = s.cache := hb.cache
  rw [← hcache]
  constructor
  · -- the item of the refused request is in the table
    intro hatomic hg
    obtain ⟨hlive, hcode⟩ := hanswered.1 hg
    have hatomic := hatomic (by rw [hcode]; decide)
    exact hatomic.unlinked (f.key, some q) (by rw [hlive]; simp) rfl
  · intro hg hcode
    obtain ⟨-, res, hout, hserved⟩ := hanswered.2 hg
    have hfailed : res.code ≠ .success := fun h => by
      rw [hserved.reply.retcode, h] at hcode
      exact hcode rfl
    obtain ⟨hnew, hgone⟩ := hout.failed hfailed
    have hbeside := hb.trans (beside_arrived hserving env)
    have hlive : c'.cache.live = res.kept := by
      rw [hserved.changed.after, hnew, zero_add]
    have hbefore : s.cache.live = res.gone + res.kept := by
      rw [← hcache]
      exact hserved.changed.before
    refine ⟨⟨res.gone, by rw [hlive, hbefore], fun x hx => ?_⟩, ?_, fun x hx e he => ?_,
      fun b hmem => ?_, fun x hx hval => ?_⟩
    · obtain ⟨e, he, hexp⟩ := hgone x hx
      refine ⟨e, (hbeside.holds_iff ?_).mp he, hexp⟩
      change x ∈ s.cache.live
      rw [hbefore]
      exact Multiset.mem_add.mpr (.inl hx)
    · rw [← hcache]
      exact (executeCmd_sized.of_ok hdone) hcode
    · rw [hlive] at hx
      refine hserved.changed.holds hx ((hbeside.holds_iff ?_).mpr he)
      change x ∈ s.cache.live
      rw [hbefore]
      exact Multiset.mem_add.mpr (.inr hx)
    · exact hserved.changed.store.typed.owns.mem_iff.mpr
        (Multiset.mem_add.mpr (.inr (Multiset.mem_add.mpr (.inl hmem))))
    · have hin : c'.conn.inReq = some q := by
        rw [hserved.conn]
        exact hserving.inReq
      have hown : q ∈ connReqs c'.heap c'.conn + s.reqsOf (s.others a) := by
        rw [connReqs_own hin (hserved.own hnew) hserving.own]
        simp
      exact hserved.changed.store.notMem_cached hown
        (mem_cachedReqs.mpr ⟨x.1, hval ▸ hx⟩)

section Examples

/-- A timeout that does not fit into 64 bits. -/
def overlongPacket : Packet :=
  ⟨⟨1, ascii "k", ascii "w", ascii "18446744073709551616"⟩, by decide, by decide, by decide⟩

/-- Whether the request at hand is executed, and what its command returns passes the test. -/
def executesTo (H : Host σ) (a : Addr) (env : Env) (p : Addr → Fields → Ctx σ → Bool)
    (s : State σ) : Bool :=
  match readRequest H (touched (s.ctx a) env) env.read with
  | .ok (c, _, true) =>
      match c.conn.inReq with
      | some q =>
          match c.heap.reqs q with
          | some r => hasClient a s && returns (executeCmd H c env) (p q (c.heap.fields r))
          | none => false
      | none => false
  | _ => false

theorem exists_of_executesTo {p : Addr → Fields → Ctx σ → Bool}
    (h : executesTo H a env p s = true) : a ∈ s.conns ∧ Conn.client (s.conn a) = true ∧
      ∃ c q r f c', Executes H (s.ctx a) env c q r f ∧ executeCmd H c env = .ok c' ∧
        p q f c' = true := by
  rw [executesTo] at h
  split at h
  · rename_i c ret hrun
    cases hin : c.conn.inReq with
    | none => simp [hin] at h
    | some q =>
        cases hr : c.heap.reqs q with
        | none => simp [hin, hr] at h
        | some r =>
            simp only [hin, hr, Bool.and_eq_true, hasClient, List.contains_iff_mem] at h
            obtain ⟨⟨ha, hclient⟩, hreturns⟩ := h
            obtain ⟨c', hc', hp⟩ := exists_of_returns hreturns
            exact ⟨ha, hclient, c, q, r, _, c', ⟨⟨ret, hrun⟩, hin, hr, rfl⟩, hc', hp⟩
  · cases h

/-- One client has stored a value, and another one is about to replace it. -/
def aboutToReplace : List Input :=
  knock 1 :: knock 1 :: (arrive 4 setPacket.encode ++ Server.take 4 8 ++
    arrive 6 (overlongPacket.encode.take 33))

/-- The SET that is to replace the value is refused. -/
theorem failed_atomic_iff_overlong :
    ∃ s, start (Host.lp64 Allocator.unlimited) ⟨0, 2⟩ (emptyHeap ∅) 3
        (hearing .eof) = .ok (some s) ∧
      ∃ s', run (step (Host.lp64 Allocator.unlimited)) s aboutToReplace = .ok s' ∧
        hcount s'.cache = 1 ∧
        ∃ c q r f c', Executes (Host.lp64 Allocator.unlimited) (s'.ctx 6)
            (hearing (.byte 54)) c q r f ∧
          executeCmd (Host.lp64 Allocator.unlimited) c (hearing (.byte 54)) = .ok c' ∧
          c'.conn.out.retcode = Code.invalidParam.toByte ∧
          ((c'.conn.out.retcode ≠ Code.success.toByte →
              Atomic (Host.lp64 Allocator.unlimited) s' q 0 c') ↔
            ¬ GrowthRefused (Host.lp64 Allocator.unlimited)
              (arrived c q r (hearing (.byte 54))).heap s'.cache q f) := by
  obtain ⟨s, hstart, htest⟩ : ∃ s, start (Host.lp64 Allocator.unlimited) ⟨0, 2⟩
      (emptyHeap ∅) 3 (hearing .eof) = .ok (some s) ∧
      (meetsTest (step (Host.lp64 Allocator.unlimited))
          (carefulTest (Host.lp64 Allocator.unlimited)) s aboutToReplace &&
        returns (run (step (Host.lp64 Allocator.unlimited)) s aboutToReplace) fun s' =>
          hcount s'.cache == 1 && executesTo (Host.lp64 Allocator.unlimited) 6
            (hearing (.byte 54)) (fun _ _ c' =>
              c'.conn.out.retcode == Code.invalidParam.toByte) s') = true :=
    ⟨_, rfl, by decide +kernel⟩
  rw [Bool.and_eq_true] at htest
  obtain ⟨s', hs', hat⟩ := exists_of_returns htest.2
  rw [Bool.and_eq_true] at hat
  obtain ⟨ha, hclient, c, q, r, f, c', hexec, hdone, hcode⟩ := exists_of_executesTo hat.2
  have hsound := ((sound_start (boot_emptyHeap rfl) hstart).run
    (meets_of_test htest.1 fun _ _ _ => careful_of_test)).of_ok hs'
  exact ⟨s, hstart, s', hs', beq_iff_eq.mp hat.1, c, q, r, f, c', hexec, hdone,
    beq_iff_eq.mp hcode, failed_atomic_iff hsound ha hclient hexec hdone⟩

/-- The value "v" for a key of one byte, for nine seconds. -/
def letterPacket (k : UInt8) : Packet :=
  ⟨⟨1, [k], ascii "v", ascii "9"⟩, by simp [protocolMaxKeySize],
    (by decide : (ascii "v").length < protocolMaxDataSize),
    (by decide : (ascii "9").length < protocolMaxExtraSize)⟩

/-- Eleven keys fill the table up to its load factor, and a twelfth one is on its way. -/
def fullTable : List Input :=
  (knock 1 :: (ascii "abcdefghijk").flatMap fun k =>
    arrive 4 (letterPacket k).encode ++ Server.take 4 8) ++
      arrive 4 ((letterPacket 108).encode.take 14)

/-- A failed command has left the request `q` in the table. -/
def leavesRequest (q : Addr) (_ : Fields) (c' : Ctx σ) : Bool :=
  c'.conn.out.retcode != Code.success.toByte &&
    c'.cache.items.any fun it => !it.free && it.val == some q

/-- The growth for the twelfth key needs a block of 256 bytes. -/
theorem failed_not_atomic :
    ∃ s, start (Host.lp64 (Allocator.upTo 250)) ⟨0, 2⟩ (emptyHeap ∅) 3
        (hearing .eof) = .ok (some s) ∧
      ∃ s', run (step (Host.lp64 (Allocator.upTo 250))) s fullTable = .ok s' ∧
        4 ∈ s'.conns ∧ Conn.client (s'.conn 4) = true ∧
        ∃ c q r f c', Executes (Host.lp64 (Allocator.upTo 250)) (s'.ctx 4)
            (hearing (.byte 57)) c q r f ∧
          executeCmd (Host.lp64 (Allocator.upTo 250)) c (hearing (.byte 57)) = .ok c' ∧
          c'.conn.out.retcode ≠ Code.success.toByte ∧
          ¬ Atomic (Host.lp64 (Allocator.upTo 250)) s' q 0 c' := by
  refine ⟨_, rfl, Exists.imp (fun s' hs' => ⟨hs'.1, ?_⟩) (exists_of_returns
    (p := executesTo (Host.lp64 (Allocator.upTo 250)) 4 (hearing (.byte 57))
      leavesRequest) ?_)⟩
  · obtain ⟨ha, hclient, c, q, r, f, c', hexec, hdone, htest⟩ := exists_of_executesTo hs'.2
    simp only [leavesRequest, Bool.and_eq_true, bne_iff_ne, ne_eq, List.any_eq_true,
      Bool.not_eq_true', beq_iff_eq] at htest
    obtain ⟨hcode, it, hit, hlive, hval⟩ := htest
    exact ⟨ha, hclient, c, q, r, f, c', hexec, hdone, hcode, fun h =>
      h.unlinked (it.name, it.val) (mem_live.mpr ⟨it, Multiset.mem_coe.mpr hit, hlive, rfl⟩) hval⟩
  · decide +kernel

end Examples

end Lightcache.Server
