import Lightcache.Server.Execute

/-!
# `execute_cmd`, one specification for all commands

The validation of a SET, the commands that remove entries, the settings and the
statistics, and `execute_cmd` itself.
-/

namespace Lightcache.Server

open Lightcache Lightcache.Foundation Lightcache.Hashtab Heap

variable {σ : Type} {H : Host σ} {c c' : Ctx σ} {q : Addr} {r : Request}
  {f : Fields} {Q B W : Multiset Addr} {env : Env}

theorem Done.answered {h : Heap σ} {ht : Cache} {set : Settings} {conn : Conn}
    (hd : Done H h ht set conn q r f Q B W c')
    (hg : ¬ GrowthRefused H h ht q f) :
    Answered H h ht set conn q r f Q B W c' :=
  ⟨fun h => absurd h hg, fun _ => hd⟩

theorem growthRefused_set {h : Heap σ} {ht : Cache}
    (hcmd : f.command ≠ some .cmdSet) : ¬ GrowthRefused H h ht q f := fun hg =>
  hcmd hg.1

/-! ## SET -/

theorem validateSet_invalid (hs : Serving H c.heap c.cache c.conn q r f Q B W)
    (hdata : f.data ≠ []) (hextra : f.extra ≠ []) (hvalue : atoullValue f.extra = none) :
    validateSet H c q r = sendResponse c .invalidParam := by
  rw [validateSet, if_neg (mt hs.delivered.data.eq_none.mp hdata), hs.delivered.extra.load,
    ok_bind, if_neg hextra, atoull_some, atoullValue_append_nul, ok_bind, hvalue]

theorem validateSet_post (hs : Serving H c.heap c.cache c.conn q r f Q B W)
    (hcmd : f.command = some .cmdSet) :
    Post (validateSet H c q r)
      (Answered H c.heap c.cache c.settings c.conn q r f Q B W)
      (CommandFault c.cache f) := by
  have hreads : ReadsNull c.cache f ↔ f.data ≠ [] ∧ f.extra = [] := by
    simp [ReadsNull, hcmd]
  obtain ⟨c', hc', hserved⟩ := hs.refuse .invalidParam
  by_cases hdata : f.data = []
  · have hg : ¬ GrowthRefused H c.heap c.cache q f := fun hg => hg.2.1 hdata
    rw [validateSet, if_pos (hs.delivered.data.eq_none.mpr hdata), hc']
    exact Done.answered ⟨fun h => (hreads.mp h).1 hdata, _,
      .setInvalid hcmd (.inl hdata), hserved⟩ hg
  by_cases hextra : f.extra = []
  · rw [validateSet, if_neg (mt hs.delivered.data.eq_none.mp hdata),
      hs.delivered.extra.load, ok_bind, if_pos hextra, atoull_none]
    exact .inl ⟨rfl, hreads.mpr ⟨hdata, hextra⟩⟩
  cases hvalue : atoullValue f.extra with
  | none =>
      have hg : ¬ GrowthRefused H c.heap c.cache q f := fun hg => hg.2.2.1 hvalue
      rw [validateSet_invalid hs hdata hextra hvalue, hc']
      exact Done.answered ⟨fun h => hextra (hreads.mp h).2, _,
        .setInvalid hcmd (.inr hvalue), hserved⟩ hg
  | some val =>
      rw [validateSet, if_neg (mt hs.delivered.data.eq_none.mp hdata),
        hs.delivered.extra.load, ok_bind, if_neg hextra, atoull_some,
        atoullValue_append_nul, ok_bind, hvalue]
      exact setItem_post hs hcmd hdata (by simp [hvalue])

theorem executeSet_post (hs : Serving H c.heap c.cache c.conn q r f Q B W)
    (hcmd : f.command = some .cmdSet) :
    Post (executeSet H c q r)
      (Answered H c.heap c.cache c.settings c.conn q r f Q B W)
      (CommandFault c.cache f) :=
  validateSet_post (c := c.withStats _) hs hcmd

theorem executeSet_invalid (hs : Serving H c.heap c.cache c.conn q r f Q B W)
    (hdata : f.data ≠ []) (hextra : f.extra ≠ []) (hvalue : atoullValue f.extra = none) :
    ∃ c', executeSet H c q r = .ok c' ∧ Served H c.heap c.cache c.conn c' q r f
      (unchanged c.cache c.settings .invalidParam []) Q B W := by
  obtain ⟨c', hc', hserved⟩ := Serving.refuse (c := c.withStats _) hs .invalidParam
  exact ⟨c', (validateSet_invalid (c := c.withStats _) hs hdata hextra hvalue).trans hc',
    hserved⟩

/-! ## DELETE and FLUSH_ALL -/

theorem executeDelete_post (hs : Serving H c.heap c.cache c.conn q r f Q B W)
    (hcmd : f.command = some .cmdDelete) :
    Post (executeDelete H c r) (Done H c.heap c.cache c.settings c.conn q r f Q B W)
      (CommandFault c.cache f) := by
  have hreads : ReadsNull c.cache f ↔ f.key = [] ∧ HeadLive c.cache := by
    simp [ReadsNull, hcmd]
  obtain ⟨key, hload, hget⟩ := hs.lookup
  rw [executeDelete, hload, ok_bind]
  refine (hget.mono (fun _ hr => hr) fun e he => .inl ⟨he.1, hreads.mpr he.2⟩).bind
    fun ref hr => ?_
  cases ref with
  | none =>
      obtain ⟨hmiss, hhead⟩ := hr
      obtain ⟨c', hc', hserved⟩ := hs.refuse .keyNotexists
      dsimp only
      rw [hc']
      exact ⟨fun h => hhead (hreads.mp h).1 (hreads.mp h).2, _,
        .deleteMiss hcmd hmiss, hserved⟩
  | some ref =>
      obtain ⟨hkey, it, hat, hlive, -, hclash⟩ := hr
      obtain ⟨heap, cache, kept, hevict, hchanged⟩ := evict_post hs.store hat hlive
      have hr' : heap.reqs q = some r := by
        rw [hchanged.agree.reqs q (by simp), hs.req]
      obtain ⟨c', hc', hserved⟩ := served_send (c := c.withStore heap cache) hs rfl hr'
        (hchanged.mono (Multiset.le_add_left ..) (Multiset.le_add_left ..)) .success
      dsimp only
      rw [hevict, ok_bind, hc']
      exact ⟨fun h => hkey (hreads.mp h).1, _,
        .delete hcmd hchanged.before hclash, hserved⟩

theorem executeFlushAll_post (hs : Serving H c.heap c.cache c.conn q r f Q B W)
    (hcmd : f.command = some .cmdFlushAll) :
    Post (executeFlushAll H c) (Done H c.heap c.cache c.settings c.conn q r f Q B W)
      (CommandFault c.cache f) := by
  obtain ⟨heap, cache, hflush, hchanged⟩ := flush_post hs.store
  have hr' : heap.reqs q = some r := by
    rw [hchanged.agree.reqs q (by simp), hs.req]
  obtain ⟨c', hc', hserved⟩ := served_send (c := c.withStore heap cache) hs rfl hr'
    (hchanged.mono (Multiset.le_add_left ..) (Multiset.le_add_left ..)) .success
  rw [executeFlushAll, hflush, ok_bind]
  dsimp only
  rw [hc']
  exact ⟨by simp [ReadsNull, hcmd], _, .flushAll hcmd, hserved⟩

/-! ## Settings -/

theorem strcmpEq_setting (key : Bytes) :
    strcmpEq (some (key ++ [0])) (some idleConnTimeoutName) =
      .ok (cstr key == idleConnTimeoutName) := by
  have hname : cstr idleConnTimeoutName = idleConnTimeoutName := by decide
  rw [strcmpEq_some, cstr_append_nul, hname]

theorem executeChgSetting_post (hs : Serving H c.heap c.cache c.conn q r f Q B W)
    (hcmd : f.command = some .cmdChgSetting) :
    Post (executeChgSetting c r)
      (Done H c.heap c.cache c.settings c.conn q r f Q B W)
      fun _ => False := by
  have hreads : ¬ ReadsNull c.cache f := by
    simp [ReadsNull, hcmd]
  obtain ⟨c', hc', hserved⟩ := hs.refuse .invalidParam
  rw [executeChgSetting]
  by_cases hdata : f.data = []
  · rw [if_pos (hs.delivered.data.eq_none.mpr hdata), hc']
    exact ⟨hreads, _, .chgInvalid hcmd (.inl hdata), hserved⟩
  · rw [if_neg (mt hs.delivered.data.eq_none.mp hdata), hs.delivered.key.load,
      ok_bind, if_neg (hs.delivered.dataKey hdata), strcmpEq_setting, ok_bind]
    by_cases hname : NamesTimeout f.key
    · rw [if_pos (by simpa [NamesTimeout] using hname), hs.delivered.data.load, ok_bind,
        if_neg hdata, atoull_some, atoullValue_append_nul, ok_bind]
      cases hvalue : atoullValue f.data with
      | none =>
          dsimp only
          rw [hc']
          exact ⟨hreads, _, .chgInvalid hcmd (.inr (.inr hvalue)), hserved⟩
      | some val =>
          obtain ⟨c'', hc'', hserved'⟩ := served_send
            (c := { c with settings := { c.settings with idleConnTimeout := val } })
            hs rfl hs.req hs.changed_refl .success
          dsimp only
          rw [hc'']
          exact ⟨hreads, _, .chgSetting hcmd hdata hname hvalue, hserved'⟩
    · rw [if_neg (by simpa [NamesTimeout] using hname), hc']
      exact ⟨hreads, _, .chgInvalid hcmd (.inr (.inl hname)), hserved⟩

/-- What an answer with a buffer of its own has to allocate first. -/
theorem Serving.mallocReply (hs : Serving H c.heap c.cache c.conn q r f Q B W)
    {n : Nat} (hn : 0 < n) :
    match c.heap.mallocBytes H n with
    | (none, heap) => ¬ H.alloc.NeverFails ∧
        ∃ c', sendResponse { c with heap := heap } .outOfMemory = .ok c' ∧
          Served H c.heap c.cache c.conn c' q r f
            (unchanged c.cache c.settings .outOfMemory []) Q B W
    | (some a, heap) => (heap.bufs a).getD [] = c.heap.newBlock H a n ∧
        heap.mem = (H.alloc.malloc c.heap.mem n).2 ∧
        ∀ bytes payload, payload.length = n → n < 2 ^ 32 → payload <+: bytes →
          ∃ c', addResponse { c with heap := heap.writeBytes a bytes } (some a) n
              .success = .ok c' ∧
            Served H c.heap c.cache c.conn c' q r f
              (unchanged c.cache c.settings .success payload) Q B W := by
  have hm := hs.store.mallocBytes hn
  have hmem : (c.heap.mallocBytes H n).2.mem = (H.alloc.malloc c.heap.mem n).2 := by
    rw [Heap.mallocBytes, liMalloc_pos hn]
    rcases H.alloc.malloc c.heap.mem n with ⟨_ | a, mem⟩ <;> rfl
  rcases hrun : c.heap.mallocBytes H n with ⟨_ | a, heap⟩
  · rw [hrun] at hm
    obtain ⟨hstore, hfails, hagree⟩ := hm
    have hr' : heap.reqs q = some r := by
      rw [hagree.reqs q (by simp), hs.req]
    have hchanged : Changed H c.heap c.cache heap c.cache 0 0 c.cache.live Q B
        ({q} + Q) (r.buffers + B) W :=
      ⟨hstore, by simp, by simp, hagree.mono
        (add_le_add_right (Multiset.le_add_left ..) _)
        (add_le_add_right (Multiset.le_add_left ..) _), fun _ => id⟩
    exact ⟨hfails, served_send (c := { c with heap := heap }) hs rfl hr' hchanged
      .outOfMemory⟩
  · rw [hrun] at hm hmem
    obtain ⟨hstore, hbuf, hagree⟩ := hm
    refine ⟨by simp [hbuf], hmem, fun bytes payload hlen hsmall hprefix => ?_⟩
    have hfresh : a ∉ cachedBufs c.heap c.cache.live + (r.buffers + B) := by
      have := hstore.typed.bufs_nodup
      rw [cachedBufs_congr fun q hq => hagree.reqs q (Multiset.mem_add.mpr (.inl hq)),
        Multiset.singleton_add, Multiset.add_cons, Multiset.nodup_cons] at this
      exact this.1
    have hwrite : Agree (cachedReqs c.cache.live + ({q} + Q))
        (cachedBufs c.heap c.cache.live + (r.buffers + B)) heap
        (heap.writeBytes a bytes) := agree_writeBytes hfresh
    have hall := hagree.trans hwrite
    have hstore' : Store H (heap.writeBytes a bytes) c.cache ({q} + Q)
        (r.buffers + ({a} + B)) W := by
      have hin : a ∈ cachedBufs heap c.cache.live + ({a} + (r.buffers + B)) := by simp
      refine hstore.frame ((hstore.typed.writeBytes hin bytes).congr rfl (by abel) rfl)
        (agree_writeBytes fun hmem => hfresh ?_)
      rw [cachedBufs_congr fun q hq => hagree.reqs q (Multiset.mem_add.mpr (.inl hq))]
        at hmem
      exact Multiset.mem_add.mpr (.inl hmem)
    have hr' : (heap.writeBytes a bytes).reqs q = some r := by
      rw [hall.reqs q (by simp), hs.req]
    refine ⟨_, addResponse_eq (c := { c with heap := heap.writeBytes a bytes })
      hs.inReq hr' .., ?_⟩
    refine served_keep (some a) true hs (by rw [hlen]) hr' ?_ (by omega)
      (fun _ => ⟨a, bytes, rfl, writeBytes_bufs .., hprefix⟩) (by simp)
    exact ⟨hstore', by simp, by simp, hall.mono
      (add_le_add_right (Multiset.le_add_left ..) _)
      (add_le_add_right (Multiset.le_add_left ..) _), fun _ => id⟩

theorem executeGetSetting_post (hs : Serving H c.heap c.cache c.conn q r f Q B W)
    (hcmd : f.command = some .cmdGetSetting) :
    Post (executeGetSetting H c r)
      (Done H c.heap c.cache c.settings c.conn q r f Q B W)
      (CommandFault c.cache f) := by
  have hreads : ReadsNull c.cache f ↔ f.key = [] := by
    simp [ReadsNull, hcmd]
  rw [executeGetSetting, hs.delivered.key.load, ok_bind]
  by_cases hkey : f.key = []
  · rw [if_pos hkey, strcmpEq_none]
    exact .inl ⟨rfl, hreads.mpr hkey⟩
  rw [if_neg hkey, strcmpEq_setting, ok_bind]
  by_cases hname : NamesTimeout f.key
  · rw [if_pos (by simpa [NamesTimeout] using hname)]
    have hm := hs.mallocReply (n := 8) (by decide)
    rcases hrun : c.heap.mallocBytes H 8 with ⟨_ | a, heap⟩
    · rw [hrun] at hm
      obtain ⟨hfails, c', hc', hserved⟩ := hm
      dsimp only
      rw [hc']
      have hrefused : memoryRefused H c.heap c.cache f = true := by
        simp [memoryRefused, hcmd, hname, ← mallocBytes_fst, hrun]
      exact ⟨mt hreads.mp hkey, _, .getSettingRefused hcmd hfails hrefused, hserved⟩
    · rw [hrun] at hm
      obtain ⟨c', hc', hserved⟩ := hm.2.2 _ _ (length_store ..) (by decide)
        (List.prefix_refl _)
      dsimp only
      rw [hc']
      exact ⟨mt hreads.mp hkey, _, .getSetting hcmd hname, hserved⟩
  · obtain ⟨c', hc', hserved⟩ := hs.refuse .invalidParam
    rw [if_neg (by simpa [NamesTimeout] using hname), hc']
    exact ⟨mt hreads.mp hkey, _, .getSettingInvalid hcmd hname, hserved⟩

/-! ## Statistics -/

theorem length_formatUnsigned_64 {n : Nat} (h : n < 2 ^ 64) :
    (formatUnsigned n).length ≤ 20 :=
  length_formatUnsigned_le (by decide) (h.trans (by decide))

theorem length_formatInt_32 (z : Int) :
    (formatInt (Int.bmod z (2 ^ 32))).length ≤ 11 := by
  have hlow := Int.le_bmod (x := z) (m := 2 ^ 32) (by decide)
  have hhigh := Int.bmod_lt (x := z) (m := 2 ^ 32) (by decide)
  refine length_formatInt_le (k := 10) (by decide) ?_
  norm_num at hlow hhigh ⊢
  omega

theorem unsigned_lt (z : Int) : unsigned z < 2 ^ 64 := by
  have := Int.emod_lt_of_pos z (show (0 : Int) < 2 ^ 64 by decide)
  have := Int.emod_nonneg z (show (2 ^ 64 : Int) ≠ 0 by decide)
  rw [unsigned]
  omega

/-- The text of the statistics fits into its buffer. -/
theorem length_statsText (c : Ctx σ) (env : Env) :
    (statsText H c env).length < lightcacheStatsSize := by
  have hmod : ∀ n : Nat, (formatUnsigned (n % 2 ^ 64)).length ≤ 20 := fun n =>
    length_formatUnsigned_64 (Nat.mod_lt n (Nat.two_pow_pos 64))
  have htime : ∀ z, (formatUnsigned (unsigned z)).length ≤ 20 := fun z =>
    length_formatUnsigned_64 (unsigned_lt z)
  have hcounter : ∀ n : UInt64, (formatUnsigned n.toNat).length ≤ 20 := fun n =>
    length_formatUnsigned_64 n.toNat_lt
  have h₁ := hmod (H.alloc.memused c.heap.mem)
  have h₂ := hmod c.settings.memAvail
  have h₃ := htime (env.clock 2 - c.stats.startTime)
  have h₄ := length_formatInt_32 env.pid
  have h₅ := htime (env.clock 3)
  have h₆ := length_formatInt_32 (hcount c.cache)
  have h₇ := hcounter c.stats.currConnections
  have h₈ := hcounter c.stats.cmdGet
  have h₉ := hcounter c.stats.cmdSet
  have h₁₀ := hcounter c.stats.getMisses
  have h₁₁ := hcounter c.stats.getHits
  have h₁₂ := hcounter c.stats.bytesRead
  have h₁₃ := hcounter c.stats.bytesWritten
  have hlabels : "mem_used:".length + "\r\nmem_avail:".length +
      "\r\nuptime:".length + "\r\nversion: 0.1 Build.5\r\npid:".length +
      "\r\ntime:".length + "\r\ncurr_items:".length +
      "\r\ncurr_connections:".length + "\r\ncmd_get:".length +
      "\r\ncmd_set:".length + "\r\nget_misses:".length +
      "\r\nget_hits:".length + "\r\nbytes_read:".length +
      "\r\nbytes_written:".length + "\r\n".length = 172 := by decide
  rw [statsText, statsFields]
  simp only [List.flatMap_cons, List.flatMap_nil, List.length_append, length_ascii,
    List.length_nil, lightcacheStatsSize]
  omega

theorem executeGetStats_post (hs : Serving H c.heap c.cache c.conn q r f Q B W)
    (hcmd : f.command = some .cmdGetStats) :
    Post (executeGetStats H c env)
      (Done H c.heap c.cache c.settings c.conn q r f Q B W)
      (CommandFault c.cache f) := by
  have hreads : ¬ ReadsNull c.cache f := by
    simp [ReadsNull, hcmd]
  have hm := hs.mallocReply (n := lightcacheStatsSize) (by decide)
  rw [executeGetStats]
  rcases hrun : c.heap.mallocBytes H lightcacheStatsSize with ⟨_ | a, heap⟩
  · rw [hrun] at hm
    obtain ⟨hfails, c', hc', hserved⟩ := hm
    dsimp only
    rw [hc']
    have hrefused : memoryRefused H c.heap c.cache f = true := by
      simp [memoryRefused, hcmd, ← mallocBytes_fst, hrun]
    exact ⟨hreads, _, .getStatsRefused hcmd hfails hrefused, hserved⟩
  · rw [hrun] at hm
    have hbuf := hm.1
    obtain ⟨text, htext⟩ : ∃ text,
        text = statsText H { c with heap := heap } env ++ [0] := ⟨_, rfl⟩
    have hlen : text.length ≤ lightcacheStatsSize := by
      have := length_statsText (H := H) { c with heap := heap } env
      rw [htext, List.length_append]
      exact this
    have hcopy := memcpy_prefix (c.heap.newBlock H a lightcacheStatsSize)
      text [] (by simpa using hlen)
    rw [List.append_nil] at hcopy
    dsimp only
    rw [hbuf, ← htext, hcopy, ok_bind]
    have hfull : (text ++ (c.heap.newBlock H a lightcacheStatsSize).drop
        text.length).length = lightcacheStatsSize := by
      rw [List.length_append, List.length_drop, newBlock_length]
      omega
    obtain ⟨c', hc', hserved⟩ := hm.2.2 _ _ hfull (by decide) (List.prefix_refl _)
    rw [hc']
    exact ⟨hreads, _, .getStats hcmd hfull, hserved⟩

/-! ## The interpreter -/

/-- The bytes of the fields, as `noteExecuted` finds them. -/
theorem Delivered.fields {h : Heap σ} (hd : Delivered h r f) : h.fields r = f := by
  have hfield : ∀ {p n bytes}, FieldIs h p n bytes →
      ((p.bind h.bufs).getD []).take n = bytes := by
    rintro p n bytes (⟨rfl, rfl⟩ | ⟨a, rfl, hbuf, rfl, -⟩)
    · simp
    · simp [hbuf]
  rw [Heap.fields, hfield hd.key, hfield hd.data, hfield hd.extra, ← hd.opcode]

/-- The context in which the switch of `execute_cmd` runs. -/
def arrived (c : Ctx σ) (q : Addr) (r : Request) (env : Env) : Ctx σ :=
  noteExecuted { c with
    heap := c.heap.writeRequest q { r with received := env.clock 1 } }
    { r with received := env.clock 1 }

theorem Serving.arrived (hs : Serving H c.heap c.cache c.conn q r f Q B W)
    (env : Env) :
    Serving H (arrived c q r env).heap c.cache (arrived c q r env).conn q
      { r with received := env.clock 1 } f Q B W where
  store := by
    have hq : q ∉ cachedReqs c.cache.live := hs.store.notMem_cached (by simp)
    exact hs.store.frame (hs.store.typed.writeRequest (by simp) _)
      (agree_writeRequest hq)
  inReq := hs.inReq
  req := writeRequest_reqs ..
  own := hs.own
  delivered :=
    let hd := hs.delivered
    ⟨hd.opcode, hd.key, hd.data, hd.extra, hd.noKey, hd.dataKey, hd.extraData, hd.small⟩

theorem executeCmd_eq (hs : Serving H c.heap c.cache c.conn q r f Q B W)
    (hstate : c.conn.state = .cmdReceived) (env : Env) :
    executeCmd H c env =
      match f.command with
      | some .cmdGet =>
          executeGet H (arrived c q r env) { r with received := env.clock 1 }
      | some .cmdSet =>
          executeSet H (arrived c q r env) q { r with received := env.clock 1 }
      | some .cmdDelete =>
          executeDelete H (arrived c q r env) { r with received := env.clock 1 }
      | some .cmdFlushAll => executeFlushAll H (arrived c q r env)
      | some .cmdChgSetting =>
          executeChgSetting (arrived c q r env) { r with received := env.clock 1 }
      | some .cmdGetSetting =>
          executeGetSetting H (arrived c q r env) { r with received := env.clock 1 }
      | some .cmdGetStats => executeGetStats H (arrived c q r env) env
      | none => sendResponse (arrived c q r env) .invalidCommand := by
  have hin : c.readIn = .ok (q, r) := by
    rw [Ctx.readIn, hs.inReq]
    dsimp only
    rw [readRequest_eq hs.req]
    rfl
  rw [executeCmd, if_neg (by simp [hstate]), hin, ok_bind, Fields.command,
    hs.delivered.opcode]
  rfl

/-- What a command does, whatever the allocator does. -/
theorem executeCmd_post (hs : Serving H c.heap c.cache c.conn q r f Q B W)
    (hstate : c.conn.state = .cmdReceived) (env : Env) :
    Post (executeCmd H c env)
      (Answered H (arrived c q r env).heap c.cache c.settings (arrived c q r env).conn q
        { r with received := env.clock 1 } f Q B W)
      (CommandFault c.cache f) := by
  have hs' := hs.arrived env
  rw [executeCmd_eq hs hstate env]
  cases hcmd : f.command with
  | none =>
      obtain ⟨c', hc', hserved⟩ := Serving.refuse (c := arrived c q r env) hs'
        .invalidCommand
      dsimp only
      rw [hc']
      exact Done.answered ⟨by simp [ReadsNull, hcmd], _, .unknown hcmd, hserved⟩
        (growthRefused_set (by simp [hcmd]))
  | some cmd =>
      have hanswered : ∀ {x : Except Fault (Ctx σ)}, cmd ≠ .cmdSet →
          Post x (Done H (arrived c q r env).heap c.cache c.settings
            (arrived c q r env).conn q { r with received := env.clock 1 } f Q B W)
            (CommandFault c.cache f) →
          Post x (Answered H (arrived c q r env).heap c.cache c.settings
            (arrived c q r env).conn q { r with received := env.clock 1 } f Q B W)
            (CommandFault c.cache f) := fun hne hx =>
        hx.imp fun _ hd => hd.answered (growthRefused_set (by simp [hcmd, hne]))
      cases cmd with
      | cmdGet => exact hanswered (by simp) (executeGet_post (c := arrived c q r env) hs' hcmd)
      | cmdSet => exact executeSet_post (c := arrived c q r env) hs' hcmd
      | cmdChgSetting =>
          exact hanswered (by simp) ((executeChgSetting_post (c := arrived c q r env) hs'
            hcmd).mono (fun _ h => h) fun _ => False.elim)
      | cmdGetSetting =>
          exact hanswered (by simp) (executeGetSetting_post (c := arrived c q r env) hs' hcmd)
      | cmdGetStats =>
          exact hanswered (by simp) (executeGetStats_post (c := arrived c q r env) hs' hcmd)
      | cmdDelete =>
          exact hanswered (by simp) (executeDelete_post (c := arrived c q r env) hs' hcmd)
      | cmdFlushAll =>
          exact hanswered (by simp) (executeFlushAll_post (c := arrived c q r env) hs' hcmd)

/-- A command faults on NULL exactly when it uses a field it does not have. -/
theorem executeCmd_null (hs : Serving H c.heap c.cache c.conn q r f Q B W)
    (hstate : c.conn.state = .cmdReceived) (env : Env) :
    executeCmd H c env = .error .nullDeref ↔ ReadsNull c.cache f := by
  have hpost := executeCmd_post hs hstate env
  cases hrun : executeCmd H c env with
  | error e =>
      rw [hrun] at hpost
      rcases hpost with ⟨rfl, hreads⟩ | ⟨rfl, -, hreads⟩
      · simp [hreads]
      · simp [hreads]
  | ok c' =>
      rw [hrun] at hpost
      by_cases hg : GrowthRefused H (arrived c q r env).heap c.cache q f
      · obtain ⟨hcmd, -, hvalue, -⟩ := hg
        have hextra : f.extra ≠ [] := fun hnil => hvalue (hnil ▸ atoullValue_nil)
        simp [ReadsNull, hcmd, hextra]
      · simp [(hpost.2 hg).1]

end Lightcache.Server
