import Lightcache.Server.Crowd
import Lightcache.Server.Reference

/-!
# Requests and responses on every connection

What holds for the packets of a client that has the server to itself holds for
each of many, if they spare each other: its packets are executed in order, and it
receives what one ideal cache answers to the commands of all.
-/

namespace Lightcache.Server

open Lightcache Lightcache.Foundation Lightcache.Hashtab Heap

variable {σ : Type} {H : Host σ} {s s' : State σ} {a b : Addr} {h h' : Heap σ} {ht ht₁ : Cache}
  {conn : Conn} {ps older newer : List Packet} {log : List Exchange} {env : Env} {i : Input}
  {z : State σ × List (Addr × Exchange)}

/-! ## A stream beside others -/

theorem Place.stays (hp : Place h conn older newer log) (hu : Unmoved h ht h' ht₁ conn)
    (hl : Lends h ht conn) : Place h' conn older newer log := by
  cases hp with
  | reading held reading inside answers written =>
      exact .reading (hu.held held) reading inside answers written
  | sending answering backed consumed answers written =>
      exact .sending answering (hu.backed answering.interest hl backed) consumed answers written
  | closed closed past next answers written waits =>
      exact .closed closed past next answers written waits

theorem OnTrack.stays (htrack : OnTrack ps h conn log) (hu : Unmoved h ht h' ht₁ conn)
    (hl : Lends h ht conn) : OnTrack ps h' conn log := by
  obtain ⟨older, newer, hps, hframed, hexecuted, hlogged, hplace⟩ := htrack
  exact ⟨older, newer, hps, hframed, hexecuted, hlogged, hplace.stays hu hl⟩

/-! ## The history of every connection -/

/-- The exchanges of an input, with the connection that they belong to. -/
def signed (i : Input) (ys : List Exchange) : List (Addr × Exchange) :=
  match i with
  | .ready a _ _ => ys.map (a, ·)
  | .idle _ => []

/-- `step`, with a history of all exchanges by connection. -/
def stepSigned (H : Host σ) (z : State σ × List (Addr × Exchange)) (i : Input) :
    Except Fault (State σ × List (Addr × Exchange)) := do
  let s ← step H z.1 i
  return (s, z.2 ++ signed i (exchanged z.1 s i))

/-- The exchanges of one connection. -/
def own (a : Addr) (log : List (Addr × Exchange)) : List Exchange :=
  (log.filter fun x => x.1 = a).map Prod.snd

theorem own_append (a : Addr) (log log' : List (Addr × Exchange)) :
    own a (log ++ log') = own a log ++ own a log' := by
  rw [own, List.filter_append, List.map_append]
  rfl

theorem own_signed (a : Addr) (ev : Event) (env : Env) (ys : List Exchange) :
    own a (signed (.ready a ev env) ys) = ys := by
  induction ys with
  | nil => rfl
  | cons y ys ih => simpa [own, signed] using ih

theorem own_signed_of_ne (ev : Event) (env : Env) (ys : List Exchange) (hba : b ≠ a) :
    own a (signed (.ready b ev env) ys) = [] := by
  simp [own, signed, hba]

theorem signed_snd (i : Input) :
    (signed i (exchanged s s' i)).map Prod.snd = exchanged s s' i := by
  cases i with
  | idle env => rfl
  | ready a ev env => simp [signed]

/-- What the history without connections comes to, the signed one comes to. -/
theorem post_signed {P : State σ × List Exchange → Prop} {E : Fault → Prop}
    (h : Post (stepLogged H (z.1, z.2.map Prod.snd) i) P E) :
    Post (stepSigned H z i) (fun z' => P (z'.1, z'.2.map Prod.snd)) E := by
  rw [stepLogged] at h
  rw [stepSigned]
  cases hs' : Server.step H z.1 i with
  | error e =>
      rw [hs'] at h
      exact h
  | ok s' =>
      rw [hs'] at h
      rw [ok_bind]
      change P (s', (z.2 ++ signed i (exchanged z.1 s' i)).map Prod.snd)
      rw [List.map_append, signed_snd]
      exact h

theorem stepSigned_map (z : State σ × List (Addr × Exchange)) (i : Input) :
    (stepSigned H z i).map Prod.fst = Server.step H z.1 i := by
  rw [stepSigned]
  cases Server.step H z.1 i <;> rfl

/-! ## One client of many -/

/--
The server, one of its clients in the stream of the packets `ps`, and the history.
A packet that is not framed leads off the track.
-/
structure Lane (H : Host σ) (ps : List Packet) (a : Addr) (z : State σ × List (Addr × Exchange)) :
    Prop where
  crowd : Crowd H z.1
  mem : a ∈ z.1.conns
  listening : (z.1.conn a).listening = false
  track : OnTrack ps z.1.heap (z.1.conn a) (own a z.2) ∨ Derailed ps (z.1.conn a)

theorem Lane.onTrack (hz : Lane H ps a z) (hframed : ∀ p ∈ ps, Packet.Framed p) :
    OnTrack ps z.1.heap (z.1.conn a) (own a z.2) :=
  hz.track.resolve_right (not_derailed hframed)

theorem Lane.pipelined (hz : Lane H ps a z) (hframed : ∀ p ∈ ps, Packet.Framed p) :
    Pipelined ps (z.1.conn a) (own a z.2) :=
  (hz.onTrack hframed).pipelined (hz.crowd.stage hz.mem hz.listening)

/-- Nothing is exchanged on a connection that is not served. -/
theorem Remains.own_signed (hr : Remains s s' a) :
    own a (signed i (exchanged s s' i)) = [] := by
  cases i with
  | idle env => rfl
  | ready b ev env =>
      by_cases hba : b = a
      · subst hba
        have htrace : (s'.conn b).trace = (s.conn b).trace := by
          rcases hr.2 with ⟨hconn, -⟩ | hclosed
          · rw [hconn]
          · exact hclosed.trace
        rw [exchanged_nil (by rw [htrace])]
        rfl
      · exact own_signed_of_ne ev env _ hba

/-- What a connection has executed stays so. -/
theorem ClientStep.extends {c c' : Ctx σ} {Q B W : Multiset Addr} {ev : Event}
    (hstep : ClientStep H c ev env Q B W c') (hA : H.alloc.NeverFails) :
    c.conn.trace.executed ⊆ c'.conn.trace.executed := by
  rcases hstep.quiet_or with ⟨-, htrace, -⟩ | ⟨c₁, q, r, f, -, -, hserving, -, htrace, hanswered⟩
  · rw [htrace]
    exact List.Subset.refl _
  · obtain ⟨-, res, -, hserved⟩ := hanswered.2 (not_growthRefused hA)
    have hsame : c'.conn.trace = (arrived c₁ q r env).conn.trace := by rw [hserved.conn]
    rw [hsame, hserving.noted, htrace]
    exact List.subset_append_left ..

theorem Lane.step (hz : Lane H ps a z) (hA : H.alloc.NeverFails) (hi : Polite H z.1 i)
    (hfeeds : Feeds ps a z.1 i) (hopen : (z.1.conn a).free = false) :
    Post (stepSigned H z i) (Lane H ps a) fun _ => False := by
  obtain ⟨s, log⟩ := z
  obtain ⟨hs, hmem, hlisten, htrack⟩ := hz
  dsimp only at hs hmem hlisten htrack hi hfeeds hopen
  have hclient : Conn.client (s.conn a) = true := by simp [Conn.client, hopen, hlisten]
  have hstaged := hs.staged a hmem hclient
  refine (hs.polite hA hi).bind fun s' hproceeds => ?_
  cases hproceeds.passes a hmem hclient with
  | @served ev env c' hstep hquiet =>
      refine ⟨hproceeds.crowd, hmem, ?_, ?_⟩
      · dsimp only
        rw [put_conn_self]
        exact hquiet
      · dsimp only
        rw [own_append, own_signed, put_conn_self]
        rcases htrack with htrack | hoff
        · exact htrack.serve hstaged.stage hstep hA hi.reads hfeeds
        · exact .inr (hoff.extend (hstep.extends hA))
  | remains hr =>
      have hconn : (s'.conn a).listening = (s.conn a).listening ∧
          (s'.conn a).trace = (s.conn a).trace := by
        rcases hr.2 with ⟨hconn, -⟩ | hclosed
        · exact ⟨congrArg _ hconn, congrArg _ hconn⟩
        · exact ⟨hclosed.listening, hclosed.trace⟩
      refine ⟨hproceeds.crowd, hr.1, hconn.1.trans hlisten, ?_⟩
      dsimp only
      rw [own_append, hr.own_signed, List.append_nil]
      refine htrack.imp (fun htrack => ?_) fun hoff => hoff.extend (by rw [hconn.2]; simp)
      rcases hr.2 with ⟨hsame, hu⟩ | hclosed
      · rw [hsame]
        exact htrack.stays hu hstaged.lends
      · exact htrack.close hstaged.stage hclosed.state hclosed.trace

/-- An input while the client at `a` sends the packets `ps`. -/
structure Attended (H : Host σ) (ps : List Packet) (a : Addr) (s : State σ) (i : Input) : Prop where
  polite : Polite H s i
  feeds : Feeds ps a s i
  open_ : (s.conn a).free = false

theorem Lane.run {inputs : List Input} (hz : Lane H ps a z) (hA : H.alloc.NeverFails)
    (hmeets : Meets (Server.step H) (Attended H ps a) z.1 inputs) :
    Post (Foundation.run (stepSigned H) z inputs) (Lane H ps a) fun _ => False :=
  run_post (C := fun z i => Attended H ps a z.1 i)
    (fun _ _ hz hi => hz.step hA hi.polite hi.feeds hi.open_) hz (meets_map stepSigned_map hmeets)

theorem Comes.lane (hcomes : Comes H s a s') (hs : Crowd H s) (hA : H.alloc.NeverFails)
    (ps : List Packet) : Lane H ps a (s', []) := by
  obtain ⟨hcrowd, hentered⟩ := hcomes.enters hs hA
  exact ⟨hcrowd, hcomes.mem, by simpa [Conn.client] using (Bool.and_eq_true_iff.mp hcomes.client).2,
    .inl (hentered.onTrack ps)⟩

/--
Among any number of clients that spare each other, just the packets of each that
have arrived as a whole are executed, and the client receives one response for
each of them, in order.
-/
theorem packets_answered {inputs : List Input} (hcrowded : Crowded H s) (hA : H.alloc.NeverFails)
    (hcomes : Comes H s a s') (hframed : ∀ p ∈ ps, Packet.Framed p)
    (hmeets : Meets (Server.step H) (Attended H ps a) s' inputs) :
    Post (Foundation.run (stepSigned H) (s', []) inputs)
      (fun z => Framed ps (z.1.conn a) ∧ Received (z.1.conn a) (own a z.2)) fun _ => False :=
  ((hcomes.lane (hcrowded.crowd hA) hA ps).run hA hmeets).imp
    fun _ hz => ⟨(hz.pipelined hframed).executed, (hz.pipelined hframed).received⟩

/-- Whether an input goes well for the client at `a`, which sends the packets `ps`. -/
def attendedTest (H : Host σ) (ps : List Packet) (a : Addr) (s : State σ) (i : Input) : Bool :=
  politeTest H s i && feedsTest ps a s i && !(s.conn a).free

theorem attended_of_test (hclears : H.alloc.clears = true)
    (h : attendedTest H ps a s i = true) : Attended H ps a s i ∧ Completed H s i := by
  rw [attendedTest, Bool.and_eq_true, Bool.and_eq_true, Bool.not_eq_true'] at h
  obtain ⟨hpolite, hcompleted⟩ := polite_of_test hclears h.1.1
  exact ⟨⟨hpolite, feeds_of_test h.1.2, h.2⟩, hcompleted⟩

theorem attended_sharedKey :
    ∃ s s', start (Host.lp64 Allocator.unlimited) ⟨0, 2⟩ (emptyHeap ∅) 3
        (hearing .eof) = .ok (some s) ∧
      Crowded (Host.lp64 Allocator.unlimited) s ∧
      Comes (Host.lp64 Allocator.unlimited) s 4 s' ∧
      Meets (Server.step (Host.lp64 Allocator.unlimited)) (fun s i =>
        Attended (Host.lp64 Allocator.unlimited) [setPacket, getPacket] 4 s i ∧
          Completed (Host.lp64 Allocator.unlimited) s i) s' sharedKey := by
  obtain ⟨s, hstart, hjoin⟩ : ∃ s, start (Host.lp64 Allocator.unlimited) ⟨0, 2⟩
      (emptyHeap ∅) 3 (hearing .eof) = .ok (some s) ∧
      (politeTest (Host.lp64 Allocator.unlimited) s (knock 1) && !s.conns.contains 4 &&
        s.conns.contains 1 && (s.conn 1).listening &&
      returns (Server.step (Host.lp64 Allocator.unlimited) s (knock 1)) (fun s' =>
        hasClient 4 s' && meetsTest (Server.step (Host.lp64 Allocator.unlimited))
          (attendedTest (Host.lp64 Allocator.unlimited) [setPacket, getPacket] 4) s'
            sharedKey)) = true := ⟨_, rfl, by decide +kernel⟩
  simp only [Bool.and_eq_true, List.contains_iff_mem] at hjoin
  obtain ⟨⟨⟨⟨hpolite, hnew⟩, hmem⟩, hlisten⟩, hjoin⟩ := hjoin
  obtain ⟨s', hs', htest⟩ := exists_of_returns hjoin
  rw [Bool.and_eq_true, hasClient, Bool.and_eq_true, List.contains_iff_mem] at htest
  refine ⟨s, s', hstart, .start (boot_emptyHeap rfl) hstart, ⟨⟨1, hearing .wouldBlock, hmem,
    hlisten, (polite_of_test rfl hpolite).1, hs'⟩, fun hmem => ?_, htest.1.1, htest.1.2⟩,
    meets_of_test htest.2 fun _ _ _ => attended_of_test rfl⟩
  simp [hmem] at hnew

/-- The SET and the GET of the first client are answered, with a second client in between. -/
theorem packets_answered_shared :
    ∃ s s', start (Host.lp64 Allocator.unlimited) ⟨0, 2⟩ (emptyHeap ∅) 3
        (hearing .eof) = .ok (some s) ∧
      Comes (Host.lp64 Allocator.unlimited) s 4 s' ∧
      Post (Foundation.run (stepSigned (Host.lp64 Allocator.unlimited)) (s', []) sharedKey)
        (fun z => Framed [setPacket, getPacket] (z.1.conn 4) ∧
          Received (z.1.conn 4) (own 4 z.2)) fun _ => False := by
  obtain ⟨s, s', hstart, hcrowded, hcomes, hmeets⟩ := attended_sharedKey
  exact ⟨s, s', hstart, hcomes, packets_answered hcrowded Allocator.neverFails_unlimited hcomes
    (fun p hp => (wellFormed_setGet p hp).framed) (hmeets.imp fun _ _ h => h.1)⟩

/-! ## All clients and one ideal cache -/

theorem Linear.polite {m₀ : Ideal} {x : State σ × List Exchange} (hx : Linear H m₀ x)
    (hs : Crowd H x.1) (hA : H.alloc.NeverFails) (hi : Spares H x.1 i) (hf : Completed H x.1 i) :
    Post (stepLogged H x i) (Linear H m₀) StepFault := by
  by_cases hmem : ∀ a ev env, i = .ready a ev env → a ∈ x.1.conns
  · exact hx.step hA (hs.considerate hA hi hmem).1 hf
  · push Not at hmem
    obtain ⟨b, ev, env, rfl, hb⟩ := hmem
    rw [stepLogged, Server.step, if_neg fun h => hb h.1]
    dsimp only [bind, Except.bind]
    rw [exchanged_nil rfl, List.append_nil]
    exact hx

theorem Comes.represents {m : Ideal} (hcomes : Comes H s a s') (hs : Crowd H s)
    (hA : H.alloc.NeverFails) (hm : Represents s m) : Represents s' m := by
  obtain ⟨l, env, hl, hlisten, hi, hstep⟩ := hcomes.accepts
  refine hm.unserved hs.sound (hs.considerate hA hi.spares ?_).1 (fun _ => ?_) hstep
  · rintro _ _ _ ⟨⟩
    exact hl
  · simp [Conn.client, hlisten]

end Lightcache.Server
