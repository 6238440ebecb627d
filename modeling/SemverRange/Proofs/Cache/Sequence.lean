import Mathlib.Data.List.DropRight
import SemverRange.Proofs.Cache.Coherence

/-!
# Calls one after the other

When every call ends before the next one is made, nothing is being compiled in between.  A session
of which that is true rests: each entry has its value, and a call ends with what its text compiles
to, without waiting.  What a call does to the entries depends on the text only: an entry that is
found becomes the latest; a text that compiles gets an entry, for which the oldest one makes room
if need be; and a text that does not compile gets none.

But room is made for the last one all the same, since the oldest entry is dropped when the
compilation starts, before it is known how it ends.  So in a full cache a call that fails costs
the oldest entry.

## Main definitions

* `Session.Resting` — nothing is being compiled, and the cache is on and not too full.

## Main results

* `Session.Resting.get`, `Session.Resting.getAll` — a call, or several in a row, lead from rest to
  rest.
* `Session.Resting.get_of_mem`, `Session.Resting.cache_get_of_compile`,
  `Session.Resting.cache_get_of_fault` — what a call does to the cache.
* `Session.cache_get_of_fault_after` — **a call that fails leaves all entries but the oldest of a
  full cache**.
* `Session.drops_entry_of_fault` — it does not leave that one.
-/

namespace SemverRange

theorem rtake_of_length_le {α : Type} {n : ℕ} {as : List α} (h : as.length ≤ n) :
    as.rtake n = as := by
  rw [List.rtake, Nat.sub_eq_zero_of_le h, List.drop_zero]

/-- The latest entries that fit a size with room for `n` of them. -/
theorem Cache.evict_eq_rtake {size : Size} {n : ℕ} (h : size.room = some n)
    (entries : List Entry) : evict size entries = entries.rtake n := by
  rw [evict, h]
  rfl

theorem compile_isOk_iff {text : String} :
    (compile text).isOk = true ↔ ∃ c, compile text = .ok c := by
  cases compile text with
  | ok c => exact iff_of_true rfl ⟨c, rfl⟩
  | error f => exact iff_of_false nofun nofun

namespace Session

variable {s : Session} {n : ℕ} {text : String} {stops : Compilation → Bool}

/-- A compilation ends as it has to, and if it failed, its entry is given back. -/
theorem Coherent.finish (h : s.Coherent stops) {job : ℕ} (htext : s.text? job = some text)
    {o : Outcome} (ho : o = Compilation.outcome stops (.shared job) text) :
    (s.finish text job o).Coherent stops := by
  cases o with
  | ok c => exact h.deliver htext ho nofun
  | error f =>
    refine (h.release text job).deliver htext ho fun f' _ e he => ?_
    rw [h.entries_release htext] at he
    simpa using List.of_mem_filter he

theorem pending_finish_iff {job m : ℕ} (hjob : job < s.jobs.length) (o : Outcome) :
    (s.finish text job o).Pending m ↔ m ≠ job ∧ s.Pending m := by
  cases o with
  | ok c => exact pending_deliver_iff hjob _
  | error f => exact pending_deliver_iff (s := s.release text job) hjob _

/-- Nothing is being compiled, and the cache is on and has room for its entries. -/
structure Resting (n : ℕ) (s : Session) : Prop where
  /-- The entries and the compilations fit together. -/
  coherent : s.Coherent fun _ => false
  /-- Every compilation has its outcome. -/
  settled : ∀ job, ¬ s.Pending job
  /-- The cache is on. -/
  enabled : s.cache.enabled = true
  /-- There is room for `n` entries. -/
  room : s.cache.maxSize.room = some n
  /-- There is room for an entry. -/
  pos : 0 < n
  /-- There are no more entries than there is room for. -/
  fits : s.cache.entries.length ≤ n

/-- A new session rests. -/
theorem Resting.of_new? {size : Cache.Size} {cache : Cache}
    (hnew : Cache.new? size true = .ok cache) (hroom : size.room = some n) :
    (ofCache cache).Resting n := by
  have hcoherent : (ofCache cache).Coherent fun _ => false := .of_new? hnew
  obtain ⟨hsize, rfl⟩ := Cache.new?_eq_ok_iff.1 hnew
  exact ⟨hcoherent, fun _ hjob => Nat.not_lt_zero _ hjob.1, rfl, hroom,
    Cache.Size.one_le_of_room_eq_some hsize hroom, Nat.zero_le n⟩

namespace Resting

/-- Every entry has its value. -/
theorem exists_value (h : s.Resting n) {e : Cache.Entry} (he : e ∈ s.cache.entries) :
    ∃ c, compile e.text = .ok c ∧ s.outcome? e.job = some (.ok c) := by
  cases ho : s.outcome? e.job with
  | none => exact absurd ⟨lt_of_text?_eq_some (h.coherent.entries e he), ho⟩ (h.settled e.job)
  | some o =>
    obtain ⟨c, hc, rfl⟩ := h.coherent.compile_eq_ok he ho
    exact ⟨c, hc, rfl⟩

/-- A text that does not compile has no entry. -/
theorem notMem_keys_of_fault (h : s.Resting n) {f : Fault} (hfault : compile text = .error f) :
    text ∉ s.cache.keys := by
  intro hmem
  obtain ⟨e, he, rfl⟩ := List.mem_map.1 hmem
  obtain ⟨c, hc, -⟩ := h.exists_value he
  rw [hfault] at hc
  cases hc

/-- A call that finds an entry ends with its value, and the entry becomes the latest. -/
theorem get_of_mem (h : s.Resting n) {e : Cache.Entry} (he : e ∈ s.cache.entries) :
    s.get e.text = (some (outcomeOf e.text), { s with cache := s.cache.touch e }) := by
  obtain ⟨c, hc, ho⟩ := h.exists_value he
  rw [Session.get, enter, h.enabled, if_pos rfl, h.coherent.seek_of_mem he, outcomeOf, hc]
  exact congrArg (·, _) ho

/-- A call that finds no entry compiles the text. -/
theorem get_of_notMem (h : s.Resting n) (hmiss : text ∉ s.cache.keys) :
    s.get text = (some (outcomeOf text),
      (s.snocJob (s.cache.insert text) text).finish text s.jobs.length (outcomeOf text)) := by
  have hseek := (seek_eq_start_iff h.coherent.size).2
    ⟨Cache.find?_eq_none_iff.2 hmiss, h.coherent.misses.symm, rfl⟩
  rw [Session.get, enter, h.enabled, if_pos rfl, hseek]

/-- A call ends with what its text compiles to. -/
theorem outcome_get (h : s.Resting n) (text : String) :
    (s.get text).1 = some (outcomeOf text) := by
  by_cases hmem : text ∈ s.cache.keys
  · obtain ⟨e, he, rfl⟩ := List.mem_map.1 hmem
    rw [h.get_of_mem he]
  · rw [h.get_of_notMem hmem]

/-! ### What a call does to the cache -/

/-- There is room for a new entry, and for the latest `n - 1` of the others. -/
theorem entries_insert (h : s.Resting n) (text : String) :
    (s.cache.insert text).entries =
      s.cache.entries.rtake (n - 1) ++ [⟨text, s.cache.misses⟩] := by
  obtain ⟨m, rfl⟩ := Nat.exists_eq_add_one.2 h.pos
  rw [Cache.insert, Cache.evict_eq_rtake h.room, List.rtake_concat_succ, Nat.add_sub_cancel]

/-- A text that compiles gets an entry. -/
theorem cache_get_of_compile (h : s.Resting n) (hmiss : text ∉ s.cache.keys) {c : Compiled}
    (hc : compile text = .ok c) : (s.get text).2.cache = s.cache.insert text := by
  rw [h.get_of_notMem hmiss, outcomeOf, hc]
  rfl

/-- A text that does not compile gets none, but it has cost the oldest of `n` entries. -/
theorem cache_get_of_fault (h : s.Resting n) {f : Fault} (hfault : compile text = .error f) :
    (s.get text).2.cache = { s.cache with
      entries := s.cache.entries.rtake (n - 1), misses := s.cache.misses + 1 } := by
  have hmiss := h.notMem_keys_of_fault hfault
  -- no other entry is taken for the one that is given back
  have hnew : (⟨text, s.cache.misses⟩ : Cache.Entry) ∉ s.cache.entries.rtake (n - 1) := by
    intro hmem
    exact hmiss (List.mem_map_of_mem (List.mem_of_mem_drop hmem))
  have hentries : ((s.cache.insert text).release text s.jobs.length).entries =
      s.cache.entries.rtake (n - 1) := by
    rw [Cache.release, h.entries_insert, ← h.coherent.misses, List.erase_append_right _ hnew]
    simp
  rw [h.get_of_notMem hmiss, outcomeOf, hfault]
  exact congrArg (fun entries : List Cache.Entry =>
    { s.cache with entries, misses := s.cache.misses + 1 }) hentries

/-- A call starts and ends with the cache on, of the same size, and not too full. -/
theorem cache_get (h : s.Resting n) (text : String) :
    (s.get text).2.cache.enabled = true ∧ (s.get text).2.cache.maxSize = s.cache.maxSize ∧
      (s.get text).2.cache.entries.length ≤ n := by
  by_cases hmem : text ∈ s.cache.keys
  · obtain ⟨e, he, rfl⟩ := List.mem_map.1 hmem
    rw [h.get_of_mem he]
    exact ⟨h.enabled, rfl, (Cache.perm_touch he).length_eq.trans_le h.fits⟩
  · cases hcompile : compile text with
    | ok c =>
      rw [h.cache_get_of_compile hmem hcompile]
      exact ⟨h.enabled, rfl, Cache.length_evict_le h.room _⟩
    | error f =>
      rw [h.cache_get_of_fault hcompile]
      exact ⟨h.enabled, rfl, (List.drop_sublist _ _).length_le.trans h.fits⟩

/-- A call leads from rest to rest. -/
theorem get (h : s.Resting n) (text : String) : (s.get text).2.Resting n := by
  obtain ⟨henabled, hsize, hfits⟩ := h.cache_get text
  suffices hjobs : (s.get text).2.Coherent (fun _ => false) ∧
      ∀ job, ¬ (s.get text).2.Pending job from
    ⟨hjobs.1, hjobs.2, henabled, hsize.symm ▸ h.room, h.pos, hfits⟩
  by_cases hmem : text ∈ s.cache.keys
  · obtain ⟨e, he, rfl⟩ := List.mem_map.1 hmem
    rw [h.get_of_mem he]
    exact ⟨h.coherent.touch he, h.settled⟩
  · have hstart := h.coherent.start (Cache.find?_eq_none_iff.2 hmem)
    have htext : (s.snocJob (s.cache.insert text) text).text? s.jobs.length = some text := by
      rw [text?_snocJob, if_pos rfl]
    rw [h.get_of_notMem hmem]
    refine ⟨hstart.finish htext rfl, fun job hjob => ?_⟩
    -- the only compilation that was going on has ended
    obtain ⟨hne, hpending⟩ := (pending_finish_iff (lt_of_text?_eq_some htext) _).1 hjob
    exact ((pending_snocJob_iff _).1 hpending).elim hne (h.settled job)

/-- Calls in a row lead from rest to rest. -/
theorem getAll (h : s.Resting n) (texts : List String) : (s.getAll texts).2.Resting n := by
  induction texts generalizing s with
  | nil => exact h
  | cons text texts ih => exact ih (h.get text)

/-- Calls in a row end with what their texts compile to. -/
theorem outcomes_getAll (h : s.Resting n) (texts : List String) :
    (s.getAll texts).1 = texts.map fun text => some (outcomeOf text) := by
  induction texts generalizing s with
  | nil => rfl
  | cons text texts ih =>
    rw [Session.getAll, List.map_cons, ← h.outcome_get text, ← ih (h.get text)]

end Resting

/-! ### Calls that fail -/

/-- **A call that fails leaves all entries but the oldest of a full cache.**  When calls were made
one after the other on a cache with room for `n` entries, and a text is asked for that does not
compile, then the call fails as the compilation does, the miss is counted, and of the entries the
latest `n - 1` are left in their order, with their values.  If there were less than `n`, nothing
but the count has changed. -/
theorem cache_get_of_fault_after {size : Cache.Size} {cache : Cache} {f : Fault}
    (hnew : Cache.new? size true = .ok cache) (hroom : size.room = some n) (texts : List String)
    (hfault : compile text = .error f) :
    let s := ((ofCache cache).getAll texts).2
    let s' := (s.get text).2
    (s.get text).1 = some (.error (.ofFormula f)) ∧
    s'.cache = { s.cache with
      entries := s.cache.entries.rtake (n - 1), misses := s.cache.misses + 1 } ∧
    s.cache.entries.length ≤ n ∧
    (s.cache.entries.length < n → s'.cache = { s.cache with misses := s.cache.misses + 1 }) ∧
    ∀ e ∈ s'.cache.entries, ∃ c, compile e.text = .ok c ∧
      s.outcome? e.job = some (.ok c) ∧ s'.outcome? e.job = some (.ok c) := by
  intro s s'
  have h : s.Resting n := (Resting.of_new? hnew hroom).getAll texts
  have hcache := h.cache_get_of_fault hfault
  refine ⟨?_, hcache, h.fits, fun hlt => ?_, fun e he => ?_⟩
  · rw [h.outcome_get, outcomeOf, hfault]
    rfl
  · rw [hcache, rtake_of_length_le (Nat.le_sub_one_of_lt hlt)]
  · obtain ⟨c, hc, ho⟩ := (h.get text).exists_value he
    rw [hcache] at he
    obtain ⟨c', hc', ho'⟩ := h.exists_value (List.mem_of_mem_drop he)
    rw [hc, Except.ok.injEq] at hc'
    subst hc'
    exact ⟨c, hc, ho', ho⟩

/-- Two texts in a cache for two entries, and then one with a part missing between its dots. -/
theorem cache_get_of_fault_after_two :
    ∃ f, Cache.new? (.whole 2) true = .ok ⟨[], .whole 2, true, 0, 0⟩ ∧
      compile "1..2" = .error f ∧
      let s := ((ofCache ⟨[], .whole 2, true, 0, 0⟩).getAll ["1.0.0", "2.0.0"]).2
      (s.get "1..2").1 = some (.error (.ofFormula f)) ∧
      (s.get "1..2").2.cache = { s.cache with
        entries := s.cache.entries.rtake 1, misses := s.cache.misses + 1 } := by
  have hnew : Cache.new? (.whole 2) true = .ok ⟨[], .whole 2, true, 0, 0⟩ := rfl
  cases hcompile : compile "1..2" with
  | ok c => exact absurd (compile_isOk_iff.2 ⟨c, hcompile⟩) (by decide +kernel)
  | error f =>
    obtain ⟨hget, hcache, -⟩ :=
      cache_get_of_fault_after hnew rfl ["1.0.0", "2.0.0"] hcompile
    exact ⟨f, hnew, rfl, hget, hcache⟩

/-- **A call that fails drops the oldest entry of a full cache.** -/
theorem drops_entry_of_fault :
    let cache : Cache := ⟨[], .whole 2, true, 0, 0⟩
    let s := ((ofCache cache).getAll ["1.0.0", "2.0.0"]).2
    Cache.new? (.whole 2) true = .ok cache ∧ (compile "1..2").isOk = false ∧
      s.cache.keys = ["1.0.0", "2.0.0"] ∧ (s.get "1..2").2.cache.keys = ["2.0.0"] := by
  decide +kernel

end Session

end SemverRange
