import Lightcache.Server.Lanes
import Lightcache.Server.Tally

/-!
# Conversations

The requests of a client are taken apart as they were put together, as long as
none of them has data without a key or an extra without data.  Then each is
answered before the next one is read.
-/

namespace Lightcache.Server

open Lightcache Lightcache.Foundation Lightcache.Hashtab Heap

variable {σ : Type} {H : Host σ} {s s' : State σ} {a : Addr} {h : Heap σ} {conn : Conn}
  {ps older newer rest : List Packet} {p : Packet} {x : Executed} {log : List Exchange}
  {z : State σ × List (Addr × Exchange)} {inputs : List Input}

/-! ## The requests -/

/-- The requests `older` have been executed, and the reader stands before `newer`. -/
structure Between (older newer : List Packet) (h : Heap σ) (conn : Conn) : Prop where
  executed : conn.trace.executed = entries 0 older
  past : streamLength older ≤ conn.trace.consumed
  next : ∀ p rest, newer = p :: rest →
    conn.trace.consumed < streamLength older + p.encode.length
  /-- What is being read is a part of the next request. -/
  reading : ∀ {q r f}, Held h conn q r f → Reading conn r f →
    Inside conn r f (streamLength older) newer

/-- The stream of the requests `ps` is taken apart as it was put together. -/
def Unframes (ps : List Packet) (h : Heap σ) (conn : Conn) : Prop :=
  ∃ older newer, ps = older ++ newer ∧ Between older newer h conn

theorem Place.between (hp : Place h conn older newer log) (hs : Stage h conn)
    (hexecuted : conn.trace.executed = entries 0 older) : Between older newer h conn := by
  obtain ⟨hpast, hnext⟩ := hp.position hs
  exact ⟨hexecuted, hpast, hnext, fun hd hrd => (hp.inside hd hrd).1⟩

theorem streamLength_append (ps qs : List Packet) :
    streamLength (ps ++ qs) = streamLength ps + streamLength qs := by
  rw [streamLength, List.flatMap_append, List.length_append]
  rfl

/-- When all bytes have been read, no request is left. -/
theorem Between.all (hb : Between older newer h conn)
    (hall : conn.trace.consumed = streamLength (older ++ newer)) : newer = [] := by
  cases newer with
  | nil => rfl
  | cons p rest =>
      have hlt := hb.next p rest rfl
      rw [hall, ← List.singleton_append, ← List.append_assoc, streamLength_append,
        streamLength_concat] at hlt
      exact absurd (Nat.le_add_right ..) (Nat.not_le_of_lt hlt)

/-- No request of a list ends inside another one. -/
theorem entries_apart (hx : x ∈ entries 0 (older ++ p :: rest)) :
    x.offset ≤ streamLength older ∨ streamLength older + p.encode.length ≤ x.offset := by
  rw [entries_append, Nat.zero_add, entries, List.mem_append, List.mem_cons] at hx
  rcases hx with hx | rfl | hx
  · have hle := (entries_offset hx).2
    exact .inl (by omega)
  · exact .inr (Nat.le_refl _)
  · exact .inr (entries_offset hx).1.le

theorem Derailed.executed_ne (hd : Derailed ps conn) : conn.trace.executed ≠ entries 0 ps := by
  obtain ⟨older, p, rest, rfl, -, x, hx, hafter, hbefore⟩ := hd
  intro hexecuted
  rw [hexecuted] at hx
  have hapart := entries_apart hx
  omega

theorem Lane.unframes (hz : Lane H ps a z) (hframed : ∀ p ∈ ps, Packet.Framed p) :
    Unframes ps z.1.heap (z.1.conn a) := by
  obtain ⟨older, newer, hps, -, hexecuted, -, hplace⟩ := hz.onTrack hframed
  exact ⟨older, newer, hps, hplace.between (hz.crowd.stage hz.mem hz.listening) hexecuted⟩

/-- Only requests that are framed are all executed. -/
theorem Lane.executed_iff (hz : Lane H ps a z)
    (hall : (z.1.conn a).trace.consumed = streamLength ps) :
    (z.1.conn a).trace.executed = entries 0 ps ↔ ∀ p ∈ ps, Packet.Framed p := by
  constructor
  · intro hexecuted
    obtain ⟨older, newer, rfl, hframed, hold, -, hplace⟩ :=
      hz.track.resolve_right fun hd => hd.executed_ne hexecuted
    have hbetween := hplace.between (hz.crowd.stage hz.mem hz.listening) hold
    rw [hbetween.all hall, List.append_nil]
    exact hframed
  · intro hframed
    obtain ⟨older, newer, rfl, hbetween⟩ := hz.unframes hframed
    rw [hbetween.executed, hbetween.all hall, List.append_nil]

/--
However the bytes of a client come in, its requests are taken apart as they were
put together if each has data only with a key and an extra only with data.  If one
has not, other requests have been executed when all bytes have been read.
-/
theorem requests_unframed_iff (hcrowded : Crowded H s) (hA : H.alloc.NeverFails)
    (hcomes : Comes H s a s') (hmeets : Meets (Server.step H) (Attended H ps a) s' inputs) :
    Post (Foundation.run (Server.step H) s' inputs)
      (fun t => ((∀ p ∈ ps, Packet.Framed p) → Unframes ps t.heap (t.conn a)) ∧
        ((t.conn a).trace.consumed = streamLength ps →
          ((t.conn a).trace.executed = entries 0 ps ↔ ∀ p ∈ ps, Packet.Framed p)))
      fun _ => False :=
  (post_run_map stepSigned_map (t := (s', []))).mp <|
    (hcomes.lane (hcrowded.crowd hA) hA ps |>.run hA hmeets).imp
      fun _ hz => ⟨hz.unframes, hz.executed_iff⟩

/-- The SET and the GET of the first client, with a second client in between. -/
theorem requests_unframed_iff_shared :
    ∃ s s', start (Host.lp64 Allocator.unlimited) ⟨0, 2⟩ (emptyHeap ∅) 3
        (hearing .eof) = .ok (some s) ∧
      Comes (Host.lp64 Allocator.unlimited) s 4 s' ∧
      Post (Foundation.run (Server.step (Host.lp64 Allocator.unlimited)) s' sharedKey)
        (fun t => Unframes [setPacket, getPacket] t.heap (t.conn 4)) fun _ => False := by
  obtain ⟨s, s', hstart, hcrowded, hcomes, hmeets⟩ := attended_sharedKey
  exact ⟨s, s', hstart, hcomes, (requests_unframed_iff hcrowded Allocator.neverFails_unlimited
    hcomes (hmeets.imp fun _ _ h => h.1)).imp fun _ ht => ht.1 fun p hp =>
      (wellFormed_setGet p hp).framed⟩

def statsPacket : Packet := ⟨⟨4, [], [], []⟩, by decide, by decide, by decide⟩

/-- A FLUSH_ALL with data, which read like a GET_STATS. -/
def flushPacket : Packet := ⟨⟨6, [], statsPacket.encode, []⟩, by decide, by decide, by decide⟩

/-- The client takes the response as soon as it comes, after 12 bytes. -/
def flushWithData : List Input :=
  knock 1 :: (arrive 4 (flushPacket.encode.take 12) ++ Server.take 4 8 ++
    arrive 4 (flushPacket.encode.drop 12))

/-- The data of the one request are executed as a second one. -/
theorem requests_misframed :
    ∃ s, start (Host.lp64 Allocator.unlimited) ⟨0, 2⟩ (emptyHeap ∅) 3
        (hearing .eof) = .ok (some s) ∧
      ∃ t, Foundation.run (Server.step (Host.lp64 Allocator.unlimited)) s flushWithData = .ok t ∧
        (t.conn 4).trace.consumed = streamLength [flushPacket] ∧
        (t.conn 4).trace.executed = [⟨⟨6, [], [], []⟩, 12⟩, ⟨⟨4, [], [], []⟩, 24⟩] ∧
        ¬ Unframes [flushPacket] t.heap (t.conn 4) := by
  refine ⟨_, rfl, Exists.imp (fun t ht => ⟨ht.1, ?_⟩) (exists_of_returns (p := fun t =>
    decide ((t.conn 4).trace.consumed = streamLength [flushPacket] ∧
      (t.conn 4).trace.executed = [⟨⟨6, [], [], []⟩, 12⟩, ⟨⟨4, [], [], []⟩, 24⟩])) ?_)⟩
  · obtain ⟨hconsumed, hexecuted⟩ := of_decide_eq_true ht.2
    refine ⟨hconsumed, hexecuted, ?_⟩
    rintro ⟨older, newer, hps, hb⟩
    have hlength := congrArg List.length (map_fields_entries older 0)
    have hone := congrArg List.length hps
    rw [← hb.executed, hexecuted] at hlength
    simp only [List.map_cons, List.map_nil, List.length_cons, List.length_nil, List.length_map,
      List.length_append] at hlength hone
    omega
  · decide +kernel

/-! ## The responses -/

/-- A response: a header of 8 bytes with the opcode of the request, and the payload. -/
def Echoes (f : Fields) (w : Bytes) : Prop :=
  ∃ (retcode x y : UInt8) (payload : Bytes), payload.length < 2 ^ 32 ∧
    w = f.opcode :: retcode :: x :: y :: (netBytes 4 payload.length ++ payload)

theorem Responds.echoes {y : Exchange} {w : Bytes} (hy : Responds y w) :
    Echoes y.fields w := by
  obtain ⟨resp, hopcode, -, hlength, hsmall, rfl⟩ := hy
  refine ⟨resp.retcode, resp.pad.1, resp.pad.2, y.payload, hsmall, ?_⟩
  rw [← hopcode, ← hlength]
  rfl

/-- The requests `older` have been executed, and answered one after another. -/
structure Conversed (older newer : List Packet) (responses : List Bytes) (conn : Conn) :
    Prop where
  executed : conn.trace.executed = entries 0 older
  past : streamLength older ≤ conn.trace.consumed
  next : ∀ p rest, newer = p :: rest →
    conn.trace.consumed < streamLength older + p.encode.length
  answers : List.Forall₂ Echoes (older.map Packet.toFields) responses
  written : Written responses conn.trace.written
  /-- Until a response is complete, no byte of the next request is read. -/
  waits : conn.trace.written ≠ responses.flatten →
    conn.trace.consumed = streamLength older ∧ awaited conn.state ≠ some .read

/-- Each request of the stream is answered by one response, before the next one is read. -/
def Corresponds (ps : List Packet) (conn : Conn) : Prop :=
  ∃ older newer responses, ps = older ++ newer ∧ Conversed older newer responses conn

theorem Lane.corresponds (hz : Lane H ps a z) (hframed : ∀ p ∈ ps, Packet.Framed p) :
    Corresponds ps (z.1.conn a) := by
  obtain ⟨older, newer, hps, -, hexecuted, hlogged, hplace⟩ := hz.onTrack hframed
  obtain ⟨hpast, hnext⟩ := hplace.position (hz.crowd.stage hz.mem hz.listening)
  obtain ⟨responses, hresponds, hwritten, hwaits⟩ := hplace.responses
  have hanswers := hresponds.imp fun y w hy => hy.echoes
  rw [← List.forall₂_map_left_iff (f := Exchange.fields), hlogged] at hanswers
  exact ⟨older, newer, responses, hps, hexecuted, hpast, hnext, hanswers, hwritten, hwaits⟩

/--
Among clients that spare each other, the requests of each are executed in order as
they arrive, and each is answered by one response, before the next one is read.
-/
theorem responses_correspond (hcrowded : Crowded H s) (hA : H.alloc.NeverFails)
    (hcomes : Comes H s a s') (hframed : ∀ p ∈ ps, Packet.Framed p)
    (hmeets : Meets (Server.step H) (Attended H ps a) s' inputs) :
    Post (Foundation.run (Server.step H) s' inputs)
      (fun t => Framed ps (t.conn a) ∧ Corresponds ps (t.conn a)) fun _ => False :=
  (post_run_map stepSigned_map (t := (s', []))).mp <|
    (hcomes.lane (hcrowded.crowd hA) hA ps |>.run hA hmeets).imp
      fun _ hz => ⟨(hz.pipelined hframed).executed, hz.corresponds hframed⟩

theorem responses_correspond_shared :
    ∃ s s', start (Host.lp64 Allocator.unlimited) ⟨0, 2⟩ (emptyHeap ∅) 3
        (hearing .eof) = .ok (some s) ∧
      Comes (Host.lp64 Allocator.unlimited) s 4 s' ∧
      Post (Foundation.run (Server.step (Host.lp64 Allocator.unlimited)) s' sharedKey)
        (fun t => Framed [setPacket, getPacket] (t.conn 4) ∧
          Corresponds [setPacket, getPacket] (t.conn 4)) fun _ => False := by
  obtain ⟨s, s', hstart, hcrowded, hcomes, hmeets⟩ := attended_sharedKey
  exact ⟨s, s', hstart, hcomes, responses_correspond hcrowded Allocator.neverFails_unlimited
    hcomes (fun p hp => (wellFormed_setGet p hp).framed) (hmeets.imp fun _ _ h => h.1)⟩

/--
The bytes of a key that looks, in a recycled block, like a connection that owns
the response at address 5.
-/
def thievingKey : Bytes :=
  List.replicate 40 0 ++ leBytes 8 5 ++ List.replicate 4 0 ++ leBytes 4 1

/--
The request of the first client is at address 5.  When two of its bytes have come
in, a third client is given the block of the key that the second one has sent.
-/
def interrupted : List Input :=
  knock 1 :: knock 1 :: (arrive 6 ([9, 56, 0, 0] ++ netBytes 4 56 ++ netBytes 4 0 ++
    thievingKey ++ thievingKey) ++ Server.take 6 8 ++ arrive 4 (statsPacket.encode.take 2) ++
    knock 1 :: arrive 4 (statsPacket.encode.drop 2))

/-- Two connections share a request, and one of them loses what it has read. -/
theorem request_unanswered :
    ∃ s, start (Host.lp64 Allocator.recycling) ⟨0, 2⟩ (emptyHeap ∅) 3
        (hearing .eof) = .ok (some s) ∧
      ∃ t, Foundation.run (Server.step (Host.lp64 Allocator.recycling)) s interrupted = .ok t ∧
        (t.conn 4).free = false ∧ (t.conn 4).inReq = (t.conn 8).inReq ∧
        (t.conn 4).trace = ⟨12, [], []⟩ ∧ ¬ Corresponds [statsPacket] (t.conn 4) := by
  refine ⟨_, rfl, Exists.imp (fun t ht => ⟨ht.1, ?_⟩) (exists_of_returns (p := fun t =>
    decide ((t.conn 4).free = false ∧ (t.conn 4).inReq = (t.conn 8).inReq ∧
      (t.conn 4).trace = ⟨12, [], []⟩)) ?_)⟩
  · obtain ⟨hfree, hshared, htrace⟩ := of_decide_eq_true ht.2
    refine ⟨hfree, hshared, htrace, ?_⟩
    rintro ⟨older, newer, responses, hps, hc⟩
    have hexecuted := hc.executed
    rw [htrace] at hexecuted
    cases older with
    | cons p older => cases hexecuted
    | nil =>
        have hlt := hc.next statsPacket [] hps.symm
        rw [htrace] at hlt
        revert hlt
        decide
  · decide +kernel

end Lightcache.Server
