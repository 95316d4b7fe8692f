import Lightcache.Server.Payload
import Lightcache.Server.Recall
import Lightcache.Server.Succession

/-!
# Clients side by side

As long as no client takes away what another one still points to or sends, every
client is in the middle of a request or of a response, and no event goes wrong.
-/

namespace Lightcache.Server

open Lightcache Lightcache.Foundation Lightcache.Hashtab Heap

variable {σ : Type} {H : Host σ} {s s' : State σ} {a b q : Addr} {c c' : Ctx σ} {conn : Conn}
  {h h' : Heap σ} {ht ht' : Cache} {K : Contents} {Q B W : Multiset Addr} {ev : Event}
  {env : Env} {i : Input}

/-! ## A client among others -/

/-- A payload that the connection does not own is the data of a live entry. -/
def Lends (h : Heap σ) (ht : Cache) (conn : Conn) : Prop :=
  conn.interest = some .write → conn.out.canFree = false → ∃ x ∈ ht.live, Borrows h conn x

/-- A client in the middle of a request or of a response. -/
structure Staged (h : Heap σ) (ht : Cache) (conn : Conn) : Prop where
  stage : Stage h conn
  lends : Lends h ht conn

theorem lends_of_interest (hint : conn.interest ≠ some .write) : Lends h ht conn :=
  fun hwrite => absurd hwrite hint

theorem Reading.lends {r : Request} {f : Fields} (hrd : Reading conn r f) : Lends h ht conn :=
  lends_of_interest (by rw [hrd.interest]; decide)

theorem Served.lends {r : Request} {f : Fields} {res : Result}
    (hs : Served H h ht conn c' q r f res Q B W) : Lends c'.heap c'.cache c'.conn := by
  intro _ hshared
  obtain ⟨x, hx, q₀, r₀, hval, hr₀, hsdata⟩ := hs.shared hshared
  have hlive : x ∈ c'.cache.live := by
    rw [hs.changed.after]
    exact Multiset.mem_add.mpr (.inr hx)
  obtain ⟨e₀, q₁, r₁, hval₁, hcached⟩ := hs.changed.store.cached x hlive
  obtain rfl : q₀ = q₁ := Option.some.inj (hval.symm.trans hval₁)
  obtain rfl := Option.some.inj (hr₀.symm.trans hcached.req)
  obtain ⟨d, -, hd, -⟩ := hcached.filled.data
  exact ⟨x, hlive, hshared, q₀, r₀, d, hval, hr₀, hd, hsdata.trans hd⟩

theorem ClientStep.lends (hstep : ClientStep H c ev env Q B W c') (hA : H.alloc.NeverFails)
    (hl : Lends c.heap c.cache c.conn) : Lends c'.heap c'.cache c'.conn := by
  cases hstep with
  | closed store beside closed => exact lends_of_interest (by rw [closed.interest]; decide)
  | read event held reading reads open_ holding beside =>
      rcases reads.elim (reading.touched env) with
        ⟨-, hret, -⟩ | ⟨-, -, hrd⟩ | ⟨-, -, code, hconn⟩ | ⟨hfalse, -⟩
      · exact absurd hret open_
      · exact hrd.lends
      · intro _ hshared
        rw [hconn] at hshared
        cases hshared
      · cases hfalse
  | executed event held reading run reads serving beside answered =>
      obtain ⟨-, res, -, hserved⟩ := answered.2 (not_growthRefused hA)
      exact hserved.lends
  | blocked event sending store => exact hl
  | sent event sending store source byte more => exact hl
  | headerSent event sending store state byte last data => exact hl
  | responseSent event sending source byte last noData beside next =>
      rcases next with ⟨-, -, closed⟩ | ⟨q, r, -, -, hconn⟩
      · exact lends_of_interest (by rw [closed.interest]; decide)
      · refine lends_of_interest ?_
        rw [hconn]
        exact (by decide : some Event.read ≠ some .write)

/-- What the client at `conn` holds, or sends, is where it was. -/
structure Unmoved (h : Heap σ) (ht : Cache) (h' : Heap σ) (ht' : Cache) (conn : Conn) : Prop where
  held : ∀ {q r f}, Held h conn q r f → Held h' conn q r f
  backed : ∀ {payload}, conn.interest = some .write → Lends h ht conn →
    Backed h conn payload → Backed h' conn payload
  lends : Lends h ht conn → Lends h' ht' conn

theorem Unmoved.refl (h : Heap σ) (ht : Cache) (conn : Conn) : Unmoved h ht h ht conn :=
  ⟨id, fun _ _ hb => hb, id⟩

theorem Unmoved.trans {h₁ : Heap σ} {ht₁ : Cache} (hu : Unmoved h ht h₁ ht₁ conn)
    (hu₁ : Unmoved h₁ ht₁ h' ht' conn) : Unmoved h ht h' ht' conn :=
  ⟨fun hd => hu₁.held (hu.held hd),
    fun hint hl hb => hu₁.backed hint (hu.lends hl) (hu.backed hint hl hb),
    fun hl => hu₁.lends (hu.lends hl)⟩

/-- The blocks of the client, and its lender if it has one, are left alone. -/
theorem unmoved_of_agree (hQ : connReqs h conn ≤ Q) (hB : connBufs h conn ≤ B)
    (hkept : ∀ x ∈ ht.live, Borrows h conn x → x ∈ K) (hafter : ∀ x ∈ K, x ∈ ht'.live)
    (hagree : Agree (cachedReqs K + Q) (cachedBufs h K + B) h h') :
    Unmoved h ht h' ht' conn := by
  have hlent : ∀ {payload}, conn.interest = some .write → Lends h ht conn →
      conn.out.canFree = false → Backed h conn payload → Lent h' ht' conn payload :=
    fun hint hl hshared hb => (Lent.mk (hl hint hshared) hb).agree hkept hafter
      (hagree.mono (Multiset.le_add_right ..) (Multiset.le_add_right ..))
  refine ⟨fun {q r f} held => ?_, fun {payload} hint hl hb => ?_,
    fun hl hint hshared => (@hlent [] hint hl hshared (absurd rfl)).borrows⟩
  · rw [connReqs_own held.inReq held.req held.own] at hQ
    rw [connBufs_own held.inReq held.req held.own] at hB
    have hq : q ∈ Q := Multiset.mem_of_le hQ (by simp)
    refine ⟨held.inReq, (hagree.reqs q (Multiset.mem_add.mpr (.inr hq))).trans held.req, held.own,
      held.header, held.opcode, fun fd => ?_⟩
    rcases held.fields fd with hnone | ⟨d, hd, hbuf, hrest⟩
    · exact .inl hnone
    · have hmem : d ∈ B := Multiset.mem_of_le hB
        (Multiset.mem_add.mpr (.inl (Field.mem_buffers hd)))
      exact .inr ⟨d, hd, (hagree.bufs d (Multiset.mem_add.mpr (.inr hmem))).trans hbuf, hrest⟩
  · cases hshared : conn.out.canFree with
    | false => exact (hlent hint hl hshared hb).backed
    | true =>
        -- the buffer is among those of the connection
        intro hne
        obtain ⟨d, bytes, hd, hbuf, hprefix⟩ := hb hne
        have hmem : d ∈ B := Multiset.mem_of_le hB (by
          rw [connBufs, outBufs, if_pos hshared, hd, ptrBlocks_some]
          exact Multiset.mem_add.mpr (.inr (Multiset.mem_singleton_self d)))
        exact ⟨d, bytes, hd, (hagree.bufs d (Multiset.mem_add.mpr (.inr hmem))).trans hbuf,
          hprefix⟩

theorem Staged.stays (hs : Staged h ht conn) (hu : Unmoved h ht h' ht' conn) :
    Staged h' ht' conn := by
  refine ⟨?_, hu.lends hs.lends⟩
  cases hs.stage with
  | closed closed => exact .closed closed
  | reading held reading index fits => exact .reading (hu.held held) reading index fits
  | sending answering backed =>
      exact .sending answering (hu.backed answering.interest hs.lends backed)

/-! ## The invariant -/

/-- The server between two events, with any number of clients. -/
structure Crowd (H : Host σ) (s : State σ) : Prop where
  sound : Sound H s
  keyed : s.cache.AllKeyed
  staged : ∀ a ∈ s.conns, Conn.client (s.conn a) = true → Staged s.heap s.cache (s.conn a)

/-- A client that an event is not for: it has not noticed, or has been closed. -/
def Remains (s s' : State σ) (a : Addr) : Prop :=
  a ∈ s'.conns ∧ ((s'.conn a = s.conn a ∧
    Unmoved s.heap s.cache s'.heap s'.cache (s.conn a)) ∨ Closed (s.conn a) (s'.conn a))

theorem Remains.refl (ha : a ∈ s.conns) : Remains s s a := ⟨ha, .inl ⟨rfl, .refl ..⟩⟩

theorem Remains.trans {s₁ : State σ} (hr : Remains s s₁ a) (hr₁ : Remains s₁ s' a) :
    Remains s s' a := by
  refine ⟨hr₁.1, ?_⟩
  rcases hr.2 with ⟨hconn, hu⟩ | hclosed
  · rcases hr₁.2 with ⟨hconn₁, hu₁⟩ | hclosed₁
    · rw [hconn] at hu₁
      exact .inl ⟨hconn₁.trans hconn, hu.trans hu₁⟩
    · exact .inr (hconn ▸ hclosed₁)
  · rcases hr₁.2 with ⟨hconn₁, -⟩ | hclosed₁
    · exact .inr (hconn₁ ▸ hclosed)
    · exact .inr (hclosed.trans hclosed₁)

/-- The server after the connection at `a` has been served. -/
theorem Crowd.put (hs : Crowd H s) (hsound : Sound H (s.put a c'))
    (hkeyed : c'.cache.AllKeyed)
    (hself : Conn.client c'.conn = true → Staged c'.heap c'.cache c'.conn)
    (hafter : ∀ x ∈ K, x ∈ c'.cache.live)
    (hagree : Agree (cachedReqs K + s.reqsOf (s.others a))
      (cachedBufs s.heap K + s.bufsOf (s.others a)) s.heap c'.heap)
    (hkept : ∀ b ∈ s.conns, b ≠ a → Conn.client (s.conn b) = true →
      ∀ x ∈ s.cache.live, Borrows s.heap (s.conn b) x → x ∈ K) :
    Crowd H (s.put a c') ∧ ∀ b ∈ s.conns, b ≠ a → Conn.client (s.conn b) = true →
      Remains s (s.put a c') b := by
  have hunmoved : ∀ b ∈ s.conns, b ≠ a → Conn.client (s.conn b) = true →
      Unmoved s.heap s.cache c'.heap c'.cache (s.conn b) := fun b hb hba hclient => by
    have hmem : b ∈ s.others a := (mem_others hs.sound.nodup).mpr ⟨hba, hb⟩
    obtain ⟨hfree, hlisten⟩ : (s.conn b).free = false ∧ (s.conn b).listening = false := by
      simpa [Conn.client] using hclient
    have hQ := le_reqsOf (s := s) hmem
    have hB := le_bufsOf (s := s) hmem
    rw [heldReqs_client hfree hlisten] at hQ
    rw [heldBufs_client hfree hlisten] at hB
    exact unmoved_of_agree hQ hB (hkept b hb hba hclient) hafter hagree
  refine ⟨⟨hsound, hkeyed, fun b hb hclient => ?_⟩, fun b hb hba hclient =>
    ⟨hb, .inl ⟨put_conn_of_ne hba, hunmoved b hb hba hclient⟩⟩⟩
  by_cases hba : b = a
  · subst hba
    rw [put_conn_self] at hclient ⊢
    exact hself hclient
  · rw [put_conn_of_ne hba] at hclient ⊢
    exact (hs.staged b hb hclient).stays (hunmoved b hb hba hclient)

/-! ## Steps -/

/-- What an event does to a client. -/
inductive Passes (H : Host σ) (s : State σ) (a : Addr) : Input → State σ → Prop
  | served {ev : Event} {env : Env} {c' : Ctx σ}
      (step : ClientStep H (s.ctx a) ev env (s.reqsOf (s.others a)) (s.bufsOf (s.others a))
        ↑s.conns c') (listening : c'.conn.listening = false) :
      Passes H s a (.ready a ev env) (s.put a c')
  | remains {i : Input} {s' : State σ} (remains : Remains s s' a) : Passes H s a i s'

/-- The server after an event, with the clients that were there and those that have come. -/
structure Proceeds (H : Host σ) (s : State σ) (i : Input) (s' : State σ) : Prop where
  crowd : Crowd H s'
  passes : ∀ a ∈ s.conns, Conn.client (s.conn a) = true → Passes H s a i s'
  enters : ∀ a ∈ s'.conns, Conn.client (s'.conn a) = true →
    (a ∈ s.conns ∧ Conn.client (s.conn a) = true) ∨ Entered s' a

/-- The server after an event that serves no client. -/
structure Aside (H : Host σ) (s s' : State σ) : Prop where
  crowd : Crowd H s'
  remains : ∀ a ∈ s.conns, Conn.client (s.conn a) = true → Remains s s' a
  enters : ∀ a ∈ s'.conns, Conn.client (s'.conn a) = true →
    (a ∈ s.conns ∧ Conn.client (s.conn a) = true) ∨ Entered s' a

theorem Aside.proceeds (hs : Aside H s s') (i : Input) : Proceeds H s i s' :=
  ⟨hs.crowd, fun _ ha hclient => .remains (hs.remains _ ha hclient), hs.enters⟩

theorem Crowd.aside (hs : Crowd H s) : Aside H s s :=
  ⟨hs, fun _ ha _ => .refl ha, fun _ ha hclient => .inl ⟨ha, hclient⟩⟩

/-- An event of a client whose command takes nothing away that is lent. -/
theorem Crowd.serve (hs : Crowd H s) (hA : H.alloc.NeverFails) (ha : a ∈ s.conns)
    (hlisten : (s.conn a).listening = false) (hcare : Considerate H s (.ready a ev env))
    (hread : ev = .read → env.read ≠ .error) (hcarries : Carries H s (.ready a ev env)) :
    Post (Server.step H s (.ready a ev env)) (Proceeds H s (.ready a ev env)) fun _ => False := by
  by_cases hclosed : (s.conn a).state = .connClosed
  · rw [Server.step]
    split
    · rw [eventHandler, if_neg fun h => h.1 hclosed, handleClient_closed (c := s.ctx a) hclosed]
      change Proceeds H s _ (s.put a (s.ctx a))
      rw [put_ctx]
      exact hs.aside.proceeds _
    · exact hs.aside.proceeds _
  obtain ⟨hclient, ho, hstore⟩ := hs.sound.opened ha hlisten hclosed
  have hstaged := hs.staged a ha hclient
  refine ((hs.sound.serve ha hlisten hcare.1).and
    (hs.sound.returns hs.keyed ha hlisten hstaged.stage hcarries)).mono
    (fun s' h => ?_) fun _ h => h.2
  obtain ⟨⟨hsound, c', hput, hquiet, hcases⟩, -⟩ := h
  subst hput
  rcases hcases with rfl | ⟨-, hev, hstep⟩
  · rw [put_ctx]
    exact hs.aside.proceeds _
  obtain ⟨hfree, -⟩ : (s.conn a).free = false ∧ (s.conn a).listening = false := by
    simpa [Conn.client] using hclient
  obtain ⟨gone, new, kept, hm, hvictims⟩ := hstep.moved hfree hlisten fun _ =>
    growsWell_of_neverFails hA
  have hbefore : s.cache.live = gone + kept := hm.changed.before
  obtain ⟨hcrowd, hremains⟩ := hs.put (K := kept) hsound (hm.changed.keyed hA hs.keyed)
    (fun _ => ⟨hstep.stage (c := s.ctx a) hA hread hstaged.stage,
      hstep.lends (c := s.ctx a) hA hstaged.lends⟩)
    (fun x hx => by
      rw [hm.changed.after]
      exact Multiset.mem_add.mpr (.inr hx))
    hm.changed.agree fun b hb hba hclientb x hx hborrows => by
      refine (Multiset.mem_add.mp (hbefore ▸ hx)).resolve_left fun hgone => ?_
      obtain ⟨rfl, hvictim⟩ := hvictims x hgone
      exact hcare.2 hclient x hx hvictim b hb hba hclientb hborrows
  refine ⟨hcrowd, fun b hb hclientb => ?_, fun b hb hclientb => .inl ?_⟩
  · by_cases hba : b = a
    · subst hba
      exact .served hstep hquiet
    · exact .remains (hremains b hb hba hclientb)
  · by_cases hba : b = a
    · subst hba
      exact ⟨ha, hclient⟩
    · rw [put_conn_of_ne hba] at hclientb
      exact ⟨hb, hclientb⟩

theorem Crowd.sweep {L : List Addr} (hs : Crowd H s) (hL : ∀ a ∈ L, a ∈ s.conns) (n : Nat)
    (env : Env) : Post (disconnectIdleFrom H L n env s) (Aside H s) fun _ => False := by
  induction L generalizing s n with
  | nil => exact hs.aside
  | cons a L ih =>
      have hrest : ∀ b ∈ L, b ∈ s.conns := fun b hb => hL b (List.mem_cons_of_mem _ hb)
      rw [disconnectIdleFrom]
      split
      · exact hs.aside
      rename_i hstop
      split
      case isFalse => exact ih hs hrest _
      have ha := hL a (List.mem_cons_self ..)
      obtain ⟨c', hc', hsound, hb, hclosed⟩ := hs.sound.disconnect ha
        (by simpa [Conn.client] using hstop)
      rw [hc', ok_bind]
      have hcache : c'.cache = s.cache := hb.cache
      obtain ⟨hcrowd, hremains⟩ := hs.put (K := s.cache.live) hsound (hcache ▸ hs.keyed)
        (fun hclient => by simp [Conn.client, hclosed.free] at hclient)
        (fun x hx => hcache ▸ hx) hb.agree fun _ _ _ _ x hx _ => hx
      refine ((ih hcrowd hrest _).and_ensures (Outlives.sweep hsound hrest _ env)).imp
        fun s' h => ?_
      obtain ⟨haside, hconns, -, hsame⟩ := h
      refine ⟨haside.crowd, fun b hmem hclient => ?_, fun b hmem hclient => .inl ?_⟩
      · by_cases hba : b = a
        · subst hba
          have hself := hsame b
          rw [put_conn_self] at hself
          refine ⟨hconns ▸ hmem, .inr ?_⟩
          rcases hself with hself | hagain
          · exact hself ▸ hclosed
          · exact hclosed.trans hagain
        · refine (hremains b hmem hba hclient).trans (haside.remains b hmem ?_)
          rw [put_conn_of_ne hba]
          exact hclient
      · rcases hsame b with hself | hagain
        · rw [hself] at hclient
          by_cases hba : b = a
          · subst hba
            rw [put_conn_self] at hclient
            simp [Conn.client, hclosed.free] at hclient
          · rw [put_conn_of_ne hba] at hclient
            exact ⟨hconns ▸ hmem, hclient⟩
        · simp [Conn.client, hagain.free] at hclient

/-! ## A client that connects -/

/-- What a new connection needs is new. -/
theorem setReadHeader_agree (hA : H.alloc.NeverFails) (hin : c.conn.inReq = none)
    (hout : outBufs c.conn.out = 0) (hQ : ∀ a ∈ Q, a ∈ H.alloc.live c.heap.mem) :
    Ensures (setReadHeader H c) fun c' => c'.cache = c.cache ∧ Agree Q B c.heap c'.heap := by
  have hfree : freeResponse H c = .ok { c with
      conn := { c.conn with out := { c.conn.out with sdata := none } } } := by
    rw [freeResponse]
    split
    · rename_i hown
      rw [outBufs, if_pos hown] at hout
      cases hdata : c.conn.out.sdata with
      | none => rfl
      | some d =>
          rw [hdata] at hout
          exact absurd hout (by simp)
    · rfl
  have hrequest : freeRequest H c = .ok c := by rw [freeRequest, hin]
  rw [setReadHeader, initResources, hrequest, ok_bind, hfree, ok_bind]
  dsimp only
  rw [mallocRequest]
  rcases hm : liMalloc H.alloc c.heap.mem sizeofRequest with ⟨_ | q, mem⟩
  · exact absurd hm (liMalloc_ne_none hA (by decide))
  dsimp only
  refine Ensures.bind (P := fun x => x.1.cache = c.cache ∧ Agree Q B c.heap x.1.heap ∧ x.2 = true)
    (Ensures.bind (ensures_true _) fun r _ => ⟨rfl, ⟨fun a ha => ?_, fun _ _ => rfl⟩, rfl⟩)
    fun x hx => ?_
  · have hnew : a ≠ q := fun h =>
      Owns.liMalloc_notMem (Allocator.owns_live c.heap.mem) hm (h ▸ hQ a ha)
    change Function.update (Function.update _ q _) q _ a = _
    rw [Function.update_of_ne hnew, Function.update_of_ne hnew]
  · obtain ⟨hcache, hagree, htrue⟩ := hx
    rw [htrue]
    exact ⟨hcache, hagree⟩

/-- The structure that a client gets owns nothing, and no one else has lost anything. -/
theorem Sound.opens {fd : Nat} {s₁ : State σ} (hs : Sound H s) (hclean : CleanBlock H s)
    (hmake : makeConn H s fd env = (some b, s₁)) :
    (s₁.conn b).inReq = none ∧ outBufs (s₁.conn b).out = 0 ∧ s₁.heap.reqs = s.heap.reqs ∧
      s₁.heap.bufs = s.heap.bufs ∧
      ∀ a ∈ H.alloc.live s.heap.mem, a ∈ H.alloc.live s₁.heap.mem := by
  rw [makeConn] at hmake
  cases hfind : s.conns.find? fun a => (s.conn a).free with
  | some x =>
      rw [hfind] at hmake
      obtain ⟨hx, rfl⟩ := Prod.mk.inj hmake
      obtain rfl := Option.some.inj hx
      obtain ⟨hidle, -⟩ := hs.idle x (List.mem_of_find?_eq_some hfind)
        (by simpa using List.find?_some hfind)
      rw [modifyConn_self]
      exact ⟨rfl, by simp [openConn, outBufs, hidle.sdata], rfl, rfl, fun _ ha => ha⟩
  | none =>
      rw [hfind] at hmake
      rcases hm : liMalloc H.alloc s.heap.mem sizeofConn with ⟨_ | x, mem⟩ <;> rw [hm] at hmake
      · cases hmake
      · obtain ⟨hx, rfl⟩ := Prod.mk.inj hmake
        obtain rfl := Option.some.inj hx
        dsimp only
        rw [Function.update_self]
        refine ⟨rfl, hclean x mem hfind hm, rfl, rfl, fun a ha => ?_⟩
        have hown := Owns.liMalloc (Allocator.owns_live s.heap.mem) hm
        rw [hown.mem_iff]
        exact Multiset.mem_add.mpr (.inr ha)

theorem Made.entered {fd : Nat} {s₁ : State σ} (hmade : Made H s fd env b s₁)
    (hset : setReadHeader H (s₁.ctx b) = .ok c') (hclient : Conn.client c'.conn = true) :
    Entered (s₁.put b c') b := by
  obtain ⟨hrested, -, htrace⟩ := rested_of_entered hset (by
    simpa using (Bool.and_eq_true_iff.mp hclient).1)
  refine ⟨by rw [put_conn_self]; exact hrested, ?_⟩
  rw [put_conn_self, htrace]
  rcases hmade.self with h | h
  · exact congrArg Conn.trace h
  · exact congrArg Conn.trace h

theorem Entered.staged (he : Entered s a) : Staged s.heap ht (s.conn a) := by
  refine ⟨he.rested.stage, ?_⟩
  obtain ⟨-, q, r, -, hreading, -⟩ := he.rested
  exact hreading.lends

/-- A client is accepted, or nothing happens. -/
theorem Crowd.accept (hs : Crowd H s) (hA : H.alloc.NeverFails) (hclean : CleanBlock H s)
    (env : Env) : Post (acceptConn H s env) (Aside H s) fun _ => False := by
  have hpost := hs.sound.accept hclean env
  rw [acceptConn] at hpost ⊢
  cases haccept : env.accept with
  | none => exact hs.aside
  | some fd =>
      have hmade := makeConn_effect H s fd env
      rw [haccept] at hpost
      dsimp only at hpost ⊢
      rcases hmake : makeConn H s fd env with ⟨_ | b, s₁⟩
      · exact absurd hmake (makeConn_ne_none hA)
      rw [hmake] at hpost hmade
      dsimp only at hpost hmade ⊢
      obtain ⟨hin, hout, hreqs, hbufs, hlive⟩ := hs.sound.opens hclean hmake
      cases hset : setReadHeader H (s₁.ctx b) with
      | error e =>
          rw [hset] at hpost
          exact hpost
      | ok c' =>
          rw [hset] at hpost
          obtain ⟨hsound, hundisturbed⟩ := hpost
          have hentered := hmade.entered hset
          have hother : ∀ a, a ≠ b → (s₁.put b c').conn a = s.conn a := fun a hab => by
            rw [put_conn_of_ne hab, hmade.other a hab]
          have hremains : ∀ a ∈ s.conns, Conn.client (s.conn a) = true →
              Remains s (s₁.put b c') a := fun a ha hclient => by
            obtain ⟨hfree, hlisten⟩ : (s.conn a).free = false ∧ (s.conn a).listening = false := by
              simpa [Conn.client] using hclient
            have hab := hmade.notInUse hs.sound a ha hfree
            have hQ := le_reqsOf (s := s) (L := ↑s.conns) (Multiset.mem_coe.mpr ha)
            rw [heldReqs_client hfree hlisten] at hQ
            have hagree := (setReadHeader_agree (c := s₁.ctx b)
              (Q := cachedReqs s.cache.live + connReqs s.heap (s.conn a))
              (B := cachedBufs s.heap s.cache.live + connBufs s.heap (s.conn a)) hA hin hout
              fun x hx => hlive x (hs.sound.store.typed.owns.mem_iff.mpr ?_)).of_ok hset
            · refine ⟨hmade.mem_of_mem ha, .inl ⟨hother a hab, ?_⟩⟩
              refine unmoved_of_agree (K := s.cache.live) le_rfl le_rfl (fun x hx _ => hx)
                (fun x hx => by rwa [hundisturbed.cache])
                ⟨fun x hx => (hagree.2.reqs x hx).trans (congrFun hreqs x),
                  fun x hx => (hagree.2.bufs x hx).trans (congrFun hbufs x)⟩
            · exact Multiset.mem_add.mpr (.inl (Multiset.mem_add.mpr (.inl
                (Multiset.mem_of_le (add_le_add_right hQ _) hx))))
          refine ⟨⟨hsound, ?_, fun a ha hclient => ?_⟩, hremains, fun a ha hclient => ?_⟩
          · rw [hundisturbed.cache]
            exact hs.keyed
          · by_cases hab : a = b
            · subst hab
              rw [put_conn_self] at hclient
              exact (hentered hclient).staged
            · rw [hother a hab] at hclient ⊢
              have ha' := hmade.mem ha hab
              rcases (hremains a ha' hclient).2 with ⟨-, hu⟩ | hclosed
              · exact (hs.staged a ha' hclient).stays hu
              · rw [hother a hab] at hclosed
                simp [Conn.client, hclosed.free] at hclient
          · by_cases hab : a = b
            · subst hab
              rw [put_conn_self] at hclient
              exact .inr (hentered hclient)
            · rw [hother a hab] at hclient
              exact .inl ⟨hmade.mem ha hab, hclient⟩

/-- The server once the poller has reported its listening socket. -/
theorem Crowd.heard (hs : Crowd H s) (hlisten : (s.conn a).listening = true) (t : Int) :
    Crowd H (s.modifyConn a fun conn => { conn with lastHeard := t }) := by
  refine ⟨hs.sound.heard a t, hs.keyed, fun b hb hclient => ?_⟩
  have hba : b ≠ a := fun h => by
    rw [h, heard_conn] at hclient
    simp [Conn.client, hlisten] at hclient
  rw [modifyConn_of_ne hba] at hclient ⊢
  exact hs.staged b hb hclient

theorem Aside.of_heard {t : Int} (hlisten : (s.conn a).listening = true)
    (h : Aside H (s.modifyConn a fun conn => { conn with lastHeard := t }) s') : Aside H s s' := by
  have hother : ∀ b, Conn.client (s.conn b) = true → (s.modifyConn a fun conn =>
      { conn with lastHeard := t }).conn b = s.conn b := fun b hclient => by
    refine modifyConn_of_ne (fun hba => ?_) _
    rw [hba] at hclient
    simp [Conn.client, hlisten] at hclient
  refine ⟨h.crowd, fun b hb hclient => ?_, fun b hb hclient => ?_⟩
  · have hr := h.remains b hb (by rw [hother b hclient]; exact hclient)
    rw [Remains, hother b hclient] at hr
    exact hr
  · refine (h.enters b hb hclient).imp_left fun hold => ⟨hold.1, ?_⟩
    have hclient := hold.2
    rw [heard_conn] at hclient
    exact hclient

theorem Crowd.step (hs : Crowd H s) (hA : H.alloc.NeverFails) (hcare : Considerate H s i)
    (hread : ¬ ReadFails i) (hcarries : Carries H s i) :
    Post (Server.step H s i) (Proceeds H s i) fun _ => False := by
  cases i with
  | idle env => exact (hs.sweep (fun _ h => h) 0 env).imp fun _ h => h.proceeds _
  | ready a ev env =>
      by_cases ha : a ∈ s.conns
      case neg =>
        rw [Server.step, if_neg fun h => ha h.1]
        exact hs.aside.proceeds _
      cases hlisten : (s.conn a).listening with
      | false => exact hs.serve hA ha hlisten hcare (by rintro rfl; exact hread) hcarries
      | true =>
          rw [Server.step]
          split
          case isFalse => exact hs.aside.proceeds _
          rename_i hguard
          by_cases hclosed : (s.conn a).state = .connClosed
          · rw [eventHandler, if_neg fun h => h.1 hclosed,
              handleClient_closed (c := s.ctx a) hclosed]
            change Proceeds H s _ (s.put a (s.ctx a))
            rw [put_ctx]
            exact hs.aside.proceeds _
          obtain rfl : ev = .read := Option.some.inj
            ((hguard.2.resolve_right hclosed).symm.trans (hs.sound.poll a ha hlisten))
          have hclean : CleanBlock H s := by
            have hcareful := hcare.1
            rwa [Careful, if_pos hlisten] at hcareful
          rw [eventHandler, if_pos ⟨hclosed, hlisten, rfl⟩]
          exact ((hs.heard hlisten _).accept hA (cleanBlock_heard hclean a _) env).imp
            fun _ h => (h.of_heard hlisten).proceeds _

/-! ## Runs -/

theorem crowd_start {settings : Settings} {heap : Heap σ} {fd : Nat} (hboot : Boot H heap)
    (hstart : start H settings heap fd env = .ok (some s)) : Crowd H s := by
  obtain ⟨l, hconns, hlisten, -⟩ := start_conns hstart
  obtain ⟨b, mem, mem', cache, -, hfresh, -, hs⟩ := start_fresh hboot hstart
  obtain rfl : s.cache = cache := by rw [hs]
  refine ⟨sound_start hboot hstart, hfresh.allKeyed, fun a ha hclient => ?_⟩
  obtain rfl : a = l := List.mem_singleton.mp (hconns ▸ ha)
  simp [Conn.client, hlisten] at hclient

theorem Open.state_ne (ho : Open h ht conn) : conn.state ≠ .connClosed := by
  intro hclosed
  rcases ho.phase with ⟨q, r, f, -, hrd⟩ | hsending
  · have hshape := hrd.shape
    rw [hclosed] at hshape
    exact hshape
  · rcases hsending.state with hstate | hstate <;> rw [hclosed] at hstate <;> cases hstate

/-- A structure that is not listening belongs to a client, or was one's. -/
theorem Crowd.stage (hs : Crowd H s) (ha : a ∈ s.conns) (hlisten : (s.conn a).listening = false) :
    Stage s.heap (s.conn a) := by
  by_cases hclosed : (s.conn a).state = .connClosed
  · exact .closed hclosed
  · exact (hs.staged a ha (hs.sound.opened ha hlisten hclosed).1).stage

/--
What clients that share the server owe each other: no command removes an entry
that another client points to or sends, and no structure for a new connection
reads as the owner of a response.
-/
def Spares (H : Host σ) (s : State σ) : Input → Prop
  | .ready a .read env =>
      if (s.conn a).listening then CleanBlock H s
      else Conn.client (s.conn a) = true → ∀ x ∈ s.cache.live, Victim H (s.ctx a) env x →
        ∀ b ∈ s.conns, b ≠ a → Conn.client (s.conn b) = true →
          (s.conn b).inReq ≠ x.2 ∧ ¬ Borrows s.heap (s.conn b) x
  | _ => True

theorem Crowd.considerate (hs : Crowd H s) (hA : H.alloc.NeverFails) (hi : Spares H s i)
    (ha : ∀ a ev env, i = .ready a ev env → a ∈ s.conns) : Considerate H s i := by
  cases i with
  | idle env => exact ⟨trivial, trivial⟩
  | ready a ev env =>
      cases ev with
      | write => exact ⟨trivial, trivial⟩
      | read =>
          have hmem := ha a .read env rfl
          rw [Spares] at hi
          cases hlisten : (s.conn a).listening with
          | true =>
              rw [hlisten, if_pos rfl] at hi
              refine ⟨?_, fun hclient => ?_⟩
              · rw [Careful, hlisten, if_pos rfl]
                exact hi
              · simp [Conn.client, hlisten] at hclient
          | false =>
              rw [hlisten, if_neg (by decide)] at hi
              refine ⟨?_, fun hclient x hx hv b hb hba hclientb =>
                (hi hclient x hx hv b hb hba hclientb).2⟩
              rw [Careful, hlisten, if_neg (by decide)]
              intro hclient
              obtain ⟨-, ho, hstore⟩ := hs.sound.opened hmem hlisten
                (hs.sound.clients a hmem hclient).state_ne
              exact ⟨growsWell_of_neverFails hA,
                fun x hx hv b hb hba hclientb => (hi hclient x hx hv b hb hba hclientb).1⟩

/-- An input that goes well: nothing is taken away, no read fails, no field is missing. -/
structure Polite (H : Host σ) (s : State σ) (i : Input) : Prop where
  spares : Spares H s i
  reads : ¬ ReadFails i
  carries : Carries H s i

theorem Crowd.polite (hs : Crowd H s) (hA : H.alloc.NeverFails) (hi : Polite H s i) :
    Post (Server.step H s i) (Proceeds H s i) fun _ => False := by
  by_cases hmem : ∀ a ev env, i = .ready a ev env → a ∈ s.conns
  · exact hs.step hA (hs.considerate hA hi.spares hmem) hi.reads hi.carries
  · push Not at hmem
    obtain ⟨a, ev, env, rfl, ha⟩ := hmem
    rw [Server.step, if_neg fun h => ha h.1]
    exact hs.aside.proceeds _

/-- What a server that has started can come to while its clients are polite. -/
inductive Crowded (H : Host σ) : State σ → Prop
  | start {settings : Settings} {heap : Heap σ} {fd : Nat} {env : Env} {s : State σ}
      (boot : Boot H heap) (start : Server.start H settings heap fd env = .ok (some s)) :
      Crowded H s
  | step {s s' : State σ} {i : Input} (crowded : Crowded H s) (polite : Polite H s i)
      (step : Server.step H s i = .ok s') : Crowded H s'

theorem Crowded.crowd (h : Crowded H s) (hA : H.alloc.NeverFails) : Crowd H s := by
  induction h with
  | start boot start => exact crowd_start boot start
  | step crowded polite step ih => exact ((ih.polite hA polite).of_ok step).crowd

/-- A client connects, and gets the structure at `a`. -/
structure Comes (H : Host σ) (s : State σ) (a : Addr) (s' : State σ) : Prop where
  accepts : ∃ l env, l ∈ s.conns ∧ (s.conn l).listening = true ∧
    Polite H s (.ready l .read env) ∧ Server.step H s (.ready l .read env) = .ok s'
  before : a ∈ s.conns → Conn.client (s.conn a) = false
  mem : a ∈ s'.conns
  client : Conn.client (s'.conn a) = true

theorem Comes.enters (h : Comes H s a s') (hs : Crowd H s) (hA : H.alloc.NeverFails) :
    Crowd H s' ∧ Entered s' a := by
  obtain ⟨l, env, -, -, hi, hstep⟩ := h.accepts
  have hproceeds := (hs.polite hA hi).of_ok hstep
  refine ⟨hproceeds.crowd, (hproceeds.enters a h.mem h.client).resolve_left fun hold => ?_⟩
  rw [h.before hold.1] at hold
  cases hold.2

theorem Crowd.run {inputs : List Input} (hs : Crowd H s) (hA : H.alloc.NeverFails)
    (hmeets : Meets (Server.step H) (Polite H) s inputs) :
    Post (Foundation.run (Server.step H) s inputs) (Crowd H) fun _ => False :=
  run_post (fun _ _ hs h => (hs.polite hA h).imp fun _ h => h.crowd) hs hmeets

/--
However the events of the clients are interleaved, none goes wrong, and each client
finds its request or its response where it left it.
-/
theorem no_event_fails {settings : Settings} {heap : Heap σ} {fd : Nat} {inputs : List Input}
    (hboot : Boot H heap) (hstart : start H settings heap fd env = .ok (some s))
    (hA : H.alloc.NeverFails) (hmeets : Meets (Server.step H) (Polite H) s inputs) :
    Post (Foundation.run (Server.step H) s inputs) (fun s' => ∀ a ∈ s'.conns,
      Conn.client (s'.conn a) = true → Staged s'.heap s'.cache (s'.conn a)) fun _ => False :=
  ((crowd_start hboot hstart).run hA hmeets).imp fun _ h => h.staged

/-- Whether no client but the one at `a` points to a live entry, or sends what it does not own. -/
def sparesTest (s : State σ) : Input → Bool
  | .ready a .read _ => (s.conn a).listening || s.conns.all fun b =>
      b == a || !Conn.client (s.conn b) ||
        (s.conn b).out.canFree && s.cache.items.all fun it => it.free || (s.conn b).inReq != it.val
  | _ => true

theorem spares_of_test (hclears : H.alloc.clears = true) (h : sparesTest s i = true) :
    Spares H s i := by
  cases i with
  | idle env => trivial
  | ready a ev env =>
      cases ev with
      | write => trivial
      | read =>
          rw [Spares]
          split
          · exact cleanBlock_of_clears hclears
          rename_i hlisten
          intro _ x hx _ b hb hba hclient
          rw [sparesTest, Bool.or_eq_true, List.all_eq_true] at h
          have hb := h.resolve_left hlisten b hb
          simp only [beq_iff_eq, hba, hclient, Bool.not_true, Bool.or_eq_true, Bool.and_eq_true,
            Bool.false_eq_true, false_or, List.all_eq_true] at hb
          obtain ⟨it, hit, hlive, rfl⟩ := mem_live.mp hx
          have hne := (hb.2 it (Multiset.mem_coe.mp hit)).resolve_left (by simp [hlive])
          exact ⟨by simpa using hne, fun hborrows => by simp [hborrows.1] at hb⟩

/-- Whether an input goes well, and executes at most a SET or a GET. -/
def politeTest (H : Host σ) (s : State σ) (i : Input) : Bool :=
  sparesTest s i && !decide (ReadFails i) && completedTest H s i

theorem polite_of_test (hclears : H.alloc.clears = true) (h : politeTest H s i = true) :
    Polite H s i ∧ Completed H s i := by
  simp only [politeTest, Bool.and_eq_true, Bool.not_eq_true', decide_eq_false_iff_not] at h
  have hcompleted := completed_of_test h.2
  exact ⟨⟨spares_of_test hclears h.1.1, h.1.2, hcompleted.carries⟩, hcompleted⟩

/-- While the first client sends a SET and a GET, a second one connects and GETs the key. -/
def sharedKey : List Input :=
  knock 1 :: (aboutToGet ++ (arrive 6 getPacket.encode ++ Server.take 6 9) ++ arrive 4 [107] ++
    Server.take 4 9)

theorem no_event_fails_shared :
    ∃ s, start (Host.lp64 Allocator.unlimited) ⟨0, 2⟩ (emptyHeap ∅) 3
        (hearing .eof) = .ok (some s) ∧
      Post (Foundation.run (Server.step (Host.lp64 Allocator.unlimited)) s
        (knock 1 :: sharedKey)) (fun s' => ∀ a ∈ s'.conns, Conn.client (s'.conn a) = true →
          Staged s'.heap s'.cache (s'.conn a)) fun _ => False := by
  obtain ⟨s, hstart, htest⟩ : ∃ s, start (Host.lp64 Allocator.unlimited) ⟨0, 2⟩
      (emptyHeap ∅) 3 (hearing .eof) = .ok (some s) ∧
      meetsTest (Server.step (Host.lp64 Allocator.unlimited))
        (politeTest (Host.lp64 Allocator.unlimited)) s (knock 1 :: sharedKey) = true :=
    ⟨_, rfl, by decide +kernel⟩
  exact ⟨s, hstart, no_event_fails (boot_emptyHeap rfl) hstart Allocator.neverFails_unlimited
    (meets_of_test htest fun _ _ _ h => (polite_of_test rfl h).1)⟩

end Lightcache.Server
