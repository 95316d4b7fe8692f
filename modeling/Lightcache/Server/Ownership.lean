import Lightcache.Server.Lifecycle

/-!
# The owners of requests

Every request object belongs to one connection, or to one entry of the cache,
and every connection that is open points to a request that is still there.
-/

namespace Lightcache.Server

open Lightcache Lightcache.Foundation Lightcache.Hashtab Heap

variable {σ : Type} {H : Host σ} {s s' : State σ} {a b q : Addr} {r : Request} {env : Env}

structure Owned (s : State σ) : Prop where
  pointed : ∀ a ∈ s.conns, Conn.client (s.conn a) = true →
    ∀ q, (s.conn a).inReq = some q → s.heap.reqs q ≠ none
  /-- The one owner of a request is an open connection, or a live entry. -/
  owner : ∀ q r, s.heap.reqs q = some r →
    (r.canFree = true ∧
      (∃! a, a ∈ s.conns ∧ Conn.client (s.conn a) = true ∧ (s.conn a).inReq = some q) ∧
      ∀ x ∈ s.cache.live, x.2 ≠ some q) ∨
    (r.canFree = false ∧ ∃ name rest, s.cache.live = (name, some q) ::ₘ rest ∧
      ∀ x ∈ rest, x.2 ≠ some q)

theorem mem_heldReqs {h : Heap σ} {conn : Conn} :
    q ∈ heldReqs h conn ↔ Conn.client conn = true ∧ conn.inReq = some q ∧
      ∃ r, h.reqs q = some r ∧ r.canFree = true := by
  rw [heldReqs]
  cases hclient : Conn.client conn with
  | false => simp
  | true =>
      rw [if_pos rfl, connReqs]
      cases hin : conn.inReq with
      | none => simp [ownRequest]
      | some p =>
          cases hown : ownRequest h (some p) with
          | none =>
              simp only [Multiset.notMem_zero, false_iff, not_and, not_exists, true_and]
              rintro hp r hr
              obtain rfl := Option.some.inj hp
              intro hfree
              rw [ownRequest_some hr hfree] at hown
              cases hown
          | some r =>
              rw [ownRequest, Option.filter_eq_some_iff, Option.bind_some] at hown
              simp only [ptrBlocks_some, Multiset.mem_singleton, true_and, Option.some.injEq]
              constructor
              · rintro rfl
                exact ⟨rfl, r, hown⟩
              · exact fun h => h.1.symm

theorem Open.pointed {h : Heap σ} {ht : Cache} {conn : Conn} (ho : Open h ht conn)
    (hin : conn.inReq = some q) : h.reqs q ≠ none := by
  rcases ho.phase with ⟨q', r, f, hd, -⟩ | hsend
  · obtain rfl := Option.some.inj (hin.symm.trans hd.inReq)
    simp [hd.req]
  · obtain ⟨q', r, hin', hr, -⟩ := hsend.request
    obtain rfl := Option.some.inj (hin.symm.trans hin')
    simp [hr]

theorem Sound.owned (hs : Sound H s) : Owned s := by
  have hnodup := hs.store.typed.reqs_nodup
  refine ⟨fun a ha hclient q hin => (hs.clients a ha hclient).pointed hin,
    fun q r hr => ?_⟩
  have hmem : q ∈ cachedReqs s.cache.live + s.reqsOf ↑s.conns :=
    (hs.store.typed.reqs q).mp (by simp [hr])
  rcases Multiset.mem_add.mp hmem with hcached | hheld
  · refine .inr ?_
    obtain ⟨name, hx⟩ := mem_cachedReqs.mp hcached
    obtain ⟨e, q', r', hq', hc⟩ := hs.store.cached _ hx
    obtain rfl : q = q' := Option.some.inj hq'
    obtain rfl := Option.some.inj (hr.symm.trans hc.req)
    obtain ⟨rest, hrest⟩ := Multiset.exists_cons_of_mem hx
    refine ⟨hc.kept, name, rest, hrest, fun x hx hval => ?_⟩
    rw [hrest, cachedReqs_cons, add_assoc, ptrBlocks_some, Multiset.singleton_add,
      Multiset.nodup_cons] at hnodup
    exact hnodup.1 (Multiset.mem_add.mpr (.inl (mem_cachedReqs.mpr ⟨x.1, hval ▸ hx⟩)))
  · refine .inl ?_
    obtain ⟨a, ha, hq⟩ := Multiset.mem_bind.mp hheld
    obtain ⟨hclient, hin, r', hr', hfree⟩ := mem_heldReqs.mp hq
    obtain rfl := Option.some.inj (hr.symm.trans hr')
    refine ⟨hfree, ⟨a, ⟨Multiset.mem_coe.mp ha, hclient, hin⟩, fun b hb => ?_⟩,
      fun x hx hval => ?_⟩
    · by_contra hne
      obtain ⟨hb, hbclient, hbin⟩ := hb
      have hother : q ∈ s.reqsOf (s.others a) := Multiset.mem_of_le
        (le_reqsOf ((mem_others hs.nodup).mpr ⟨hne, hb⟩))
        (mem_heldReqs.mpr ⟨hbclient, hbin, r, hr, hfree⟩)
      have hsplit := (hs.split (Multiset.mem_coe.mp ha)).typed.reqs_nodup
      rw [← add_assoc] at hsplit
      exact Multiset.disjoint_left.mp (Multiset.nodup_add.mp hsplit).2.2
        (Multiset.mem_add.mpr (.inr hq)) hother
    · exact Multiset.disjoint_left.mp (Multiset.nodup_add.mp hnodup).2.2
        (mem_cachedReqs.mpr ⟨x.1, hval ▸ hx⟩) hheld

section Runs

variable {settings : Settings} {heap : Heap σ} {fd : Nat}

/-- No run reads or releases a request that has been released. -/
theorem requests_owned (hboot : Boot H heap)
    (hstart : start H settings heap fd env = .ok (some s)) {inputs : List Input}
    (hcare : Meets (step H) (Careful H) s inputs) :
    Post (run (step H) s inputs) Owned
      (fun e => e ≠ .useAfterFree ∧ e ≠ .badFree) :=
  ((sound_start hboot hstart).run hcare).mono (fun _ hs => hs.owned) fun e he => by
    rcases he with rfl | rfl | rfl | rfl <;> decide

/-- Two clients store, read and delete values. -/
theorem requests_owned_two :
    ∃ s, start (Host.lp64 Allocator.unlimited) ⟨0, 2⟩ (emptyHeap ∅) 3
        (hearing .eof) = .ok (some s) ∧
      ∃ s', run (step (Host.lp64 Allocator.unlimited)) s twoClients = .ok s' ∧ Owned s' := by
  obtain ⟨s, hstart, hcare, s', hs'⟩ := careful_twoClients
  exact ⟨s, hstart, s', hs', (requests_owned (boot_emptyHeap rfl) hstart hcare).of_ok hs'⟩

/-- While the first client is answered, a second one deletes its key. -/
def deletedWhileSending : List Input :=
  knock 1 :: arrive 4 setPacket.encode ++ knock 1 :: arrive 11 deletePacket.encode

/-- The connection at `a` points to a request that has been released. -/
def dangles (a : Addr) (s : State σ) : Bool :=
  s.conns.contains a && Conn.client (s.conn a) &&
    match (s.conn a).inReq with
    | some q => (s.heap.reqs q).isNone
    | none => false

theorem requests_not_owned :
    ∃ s, start (Host.lp64 Allocator.unlimited) ⟨0, 2⟩ (emptyHeap ∅) 3
        (hearing .eof) = .ok (some s) ∧
      (∃ s', run (step (Host.lp64 Allocator.unlimited)) s deletedWhileSending = .ok s' ∧
        ¬ Owned s') ∧
      run (step (Host.lp64 Allocator.unlimited)) s (deletedWhileSending ++ take 4 8) =
        .error .useAfterFree := by
  refine ⟨_, rfl, Exists.imp (fun s' hs' => ⟨hs'.1, fun h => ?_⟩)
    (exists_of_returns (p := dangles 4) ?_), eq_error_of_stops ?_⟩
  · have htest := hs'.2
    rw [dangles] at htest
    cases hin : (s'.conn 4).inReq with
    | none => simp [hin] at htest
    | some q =>
        simp only [hin, Bool.and_eq_true, List.contains_iff_mem, Option.isNone_iff_eq_none]
          at htest
        exact h.pointed 4 htest.1.1 htest.1.2 q hin htest.2
  · decide +kernel
  · decide +kernel

end Runs

end Lightcache.Server
