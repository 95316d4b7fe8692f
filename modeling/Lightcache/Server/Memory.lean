import Lightcache.Server.Round
import Lightcache.Slab.Pool
import Lightcache.SysMalloc

/-!
# The memory that the server holds

Between two events the blocks in use are those that the server can name: its
requests and their buffers, its table, and its connections.  So `li_memused` is
the sum of what they are charged, on the system's allocator and on the slabs.
-/

namespace Lightcache.Server

open Lightcache Lightcache.Foundation Lightcache.Hashtab Lightcache.Slab Heap

variable {σ : Type} {H : Host σ} {s s' : State σ} {env : Env} {inputs : List Input}
  {charge : σ → Addr → Nat} {settings : Settings} {fd : Nat}

/-- The blocks that the server can name, each as often as it has a use for it. -/
def State.blocks (s : State σ) : Multiset Addr :=
  cachedReqs s.cache.live + s.reqsOf ↑s.conns +
    (cachedBufs s.heap s.cache.live + s.bufsOf ↑s.conns) + (s.cache.blocks + ↑s.conns)

theorem Sound.owns (hs : Sound H s) : H.alloc.Owns s.heap.mem s.blocks := hs.store.typed.owns

/-- Without clients and entries only the table and the connection structures are left. -/
theorem blocks_bare (hclients : ∀ a ∈ s.conns, Conn.client (s.conn a) = false)
    (hlive : s.cache.live = 0) : s.blocks = s.cache.blocks + ↑s.conns := by
  have hnone : ∀ a ∈ (↑s.conns : Multiset Addr), heldReqs s.heap (s.conn a) = 0 ∧
      heldBufs s.heap (s.conn a) = 0 := fun a ha => by
    simp [heldReqs, heldBufs, hclients a (Multiset.mem_coe.mp ha)]
  have hreqs : s.reqsOf ↑s.conns = 0 := by
    rw [State.reqsOf, Multiset.bind_congr fun a ha => (hnone a ha).1, Multiset.bind_zero]
  have hbufs : s.bufsOf ↑s.conns = 0 := by
    rw [State.bufsOf, Multiset.bind_congr fun a ha => (hnone a ha).2, Multiset.bind_zero]
  rw [State.blocks, hreqs, hbufs, hlive]
  simp

/-- The memory in use, as the state shows it and as the allocator accounts for it. -/
structure Accounted (H : Host σ) (charge : σ → Addr → Nat) (s : State σ) : Prop where
  owns : H.alloc.Owns s.heap.mem s.blocks
  memused : H.alloc.memused s.heap.mem = (s.blocks.map (charge s.heap.mem)).sum
  /-- Nothing is left behind by clients that have gone and entries that have been removed. -/
  bare : (∀ a ∈ s.conns, Conn.client (s.conn a) = false) → s.cache.live = 0 →
    s.blocks = s.cache.blocks + ↑s.conns

/--
In every run, whatever allocations fail, just the blocks that the server can name
are in use, each of them once, and `li_memused` is the sum of their charges.
-/
theorem memory_accounted {heap : Heap σ} (hboot : Boot H heap)
    (hstart : start H settings heap fd env = .ok (some s))
    (hcharge : Allocator.Charges H.alloc charge)
    (hcare : Meets (Server.step H) (Careful H) s inputs) :
    Post (run (Server.step H) s inputs) (Accounted H charge) StepFault :=
  ((sound_start hboot hstart).run hcare).imp fun _ hs =>
    ⟨hs.owns, hcharge.memused_eq hs.owns, blocks_bare⟩

/-- With 600 bytes in all there is no memory for the second value. -/
theorem memory_accounted_scarce :
    ∃ s, start (Host.lp64 (sysAllocator nextAddress 600)) ⟨600, 2⟩
        (emptyHeap (SysHeap.empty 600)) 3 (hearing .eof) = .ok (some s) ∧
      ∃ s', run (Server.step (Host.lp64 (sysAllocator nextAddress 600))) s twoClients = .ok s' ∧
        (s'.conn 6).trace.written[1]? = some Code.outOfMemory.toByte ∧
        Accounted (Host.lp64 (sysAllocator nextAddress 600)) SysHeap.size s' := by
  obtain ⟨s, hstart, htest⟩ : ∃ s, start (Host.lp64 (sysAllocator nextAddress 600)) ⟨600, 2⟩
      (emptyHeap (SysHeap.empty 600)) 3 (hearing .eof) = .ok (some s) ∧
      (meetsTest (Server.step (Host.lp64 (sysAllocator nextAddress 600)))
          (carefulTest (Host.lp64 (sysAllocator nextAddress 600))) s twoClients &&
        returns (run (Server.step (Host.lp64 (sysAllocator nextAddress 600))) s twoClients)
          fun s' => (s'.conn 6).trace.written[1]? == some Code.outOfMemory.toByte) = true :=
    ⟨_, rfl, by decide +kernel⟩
  rw [Bool.and_eq_true] at htest
  obtain ⟨s', hs', hcode⟩ := exists_of_returns htest.2
  exact ⟨s, hstart, s', hs', beq_iff_eq.mp hcode, (memory_accounted (boot_emptyHeap rfl) hstart
    (charges_sys nextAddress 600)
    (meets_of_test htest.1 fun _ _ _ => careful_of_test)).of_ok hs'⟩

/-! ## The server on its slabs -/

/-- The blocks `M` lie on the slabs, and the manager is ready for any call. -/
structure OnSlabs {slabs : Nat} (P : Pool slabs) (M : Multiset Addr) : Prop where
  within : ∀ a ∈ M, slabs ≤ a ∧ a + P.charge a ≤ slabs + P.cm.slabctlCount * slabSize
  apart : ∀ a ∈ M, ∀ b ∈ M, a ≠ b → a + P.charge a ≤ b ∨ b + P.charge b ≤ a
  memUsed : P.cm.memUsed = (M.map P.charge).sum
  /-- No assertion of `scmalloc` or `scfree` fails. -/
  malloc : ∀ n, ∃ r, P.cm.scmalloc n = .ok r
  free : ∀ a ∈ M, ∃ cm, P.cm.scfree (ptrOf slabs a) = .ok cm

theorem onSlabs {slabs : Nat} {P : Pool slabs} {M : Multiset Addr}
    (hown : (slabAllocator slabs).Owns P M) : OnSlabs P M := by
  have hmem : ∀ a ∈ M, a ∈ P.blocks := fun a ha => hown.mem_iff.mpr ha
  refine ⟨fun a ha => P.within (hmem a ha), fun a ha b hb => P.apart (hmem a ha) (hmem b hb),
    (charges_slabs slabs).memused_eq hown, fun n => ?_, fun a ha => ?_⟩
  · obtain ⟨r, cm, hmalloc, -⟩ := scmalloc_post P.inv n
    exact ⟨(r, cm), hmalloc⟩
  · obtain ⟨cm, c, hfree, -⟩ := scfree_post P.inv (P.ptrOf_mem (hmem a ha)).1
    exact ⟨cm, hfree⟩

/--
A server on its slabs never trips an assertion of the slab manager; what it holds
lies in chunks of its own inside the region, and `li_memused` counts their sizes.
-/
theorem server_on_slabs {slabs : Nat} {H : Host (Pool slabs)} {heap : Heap (Pool slabs)}
    {s : State (Pool slabs)} (hslabs : H.alloc = slabAllocator slabs) (hboot : Boot H heap)
    (hstart : start H settings heap fd env = .ok (some s))
    (hcare : Meets (Server.step H) (Careful H) s inputs) :
    Post (run (Server.step H) s inputs) (fun s' => OnSlabs s'.heap.mem s'.blocks) StepFault :=
  ((sound_start hboot hstart).run hcare).imp fun _ hs => onSlabs (hslabs ▸ hs.owns)

/-- The pool of a server with 64 MB, at the address 4096. -/
def pool64 : Pool 4096 where
  cm := initialised chunkTable 63
  live := ∅
  inv := slabInv_chunkTable (by decide)
  few := by decide
  region := by decide

theorem server_on_slabs_two :
    ∃ s, start (Host.lp64 (slabAllocator 4096)) ⟨4096, 2⟩ (emptyHeap pool64) 3
        (hearing .eof) = .ok (some s) ∧
      ∃ s', run (Server.step (Host.lp64 (slabAllocator 4096))) s (visits 4096 4168 4312) =
          .ok s' ∧
        OnSlabs s'.heap.mem s'.blocks := by
  have htest : returns (start (Host.lp64 (slabAllocator 4096)) ⟨4096, 2⟩ (emptyHeap pool64) 3
      (hearing .eof)) (Option.any fun s =>
        meetsTest (Server.step (Host.lp64 (slabAllocator 4096)))
            (carefulTest (Host.lp64 (slabAllocator 4096))) s (visits 4096 4168 4312) &&
          returns (run (Server.step (Host.lp64 (slabAllocator 4096))) s (visits 4096 4168 4312))
            fun s' => s'.conns.length == 3) = true := by decide +kernel
  obtain ⟨r, hstart, hany⟩ := exists_of_returns htest
  obtain ⟨s, rfl, hs⟩ := (Option.any_eq_true ..).mp hany
  rw [Bool.and_eq_true] at hs
  obtain ⟨s', hs', -⟩ := exists_of_returns hs.2
  exact ⟨s, hstart, s', hs', (server_on_slabs rfl (boot_emptyHeap rfl) hstart
    (meets_of_test hs.1 fun _ _ _ => careful_of_test)).of_ok hs'⟩

end Lightcache.Server
