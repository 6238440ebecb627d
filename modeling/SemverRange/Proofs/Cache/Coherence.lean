import Mathlib.Data.List.Nodup
import SemverRange.Proofs.Cache.Interleaving

/-!
# What holds of a session at any time

Every entry of a coherent session stands for a compilation of its own text, and none for one
that failed; no two entries have the same text, and the next compilation gets a number that was
not used.  All steps of a session keep it coherent, and they all leave what is known of the
compilations as it is: their texts, and the outcomes of those that have one.

## Main definitions

* `Session.text?`, `Session.Pending` — the text of a compilation, and whether it goes on.
* `Session.Coherent` — the entries and the compilations fit together.
* `Session.Grows` — nothing that was known of the compilations is lost.

## Main results

* `Session.seek_eq_join_iff`, `Session.seek_eq_start_iff` — what a look-up does.
* `Session.Coherent.touch`, `Session.Coherent.start`, `Session.Coherent.release`,
  `Session.Coherent.deliver` — the steps of a call keep a session coherent.
-/

namespace SemverRange

/-! ### Sizes -/

namespace Cache.Size

variable {size : Size}

/-- A cache that can be made has a size that is not negative. -/
theorem isNegative_of_not_isTooSmall (h : size.isTooSmall = false) : size.isNegative = false := by
  cases size with
  | whole n =>
    simp only [isTooSmall, isNegative, decide_eq_false_iff_not] at h ⊢
    omega
  | real x =>
    cases x with
    | finite negative m q =>
      cases negative with
      | false => rfl
      | true => cases h
    | infinite negative => exact h
    | nan => rfl

/-- A cache that can be made has room for an entry. -/
theorem one_le_of_room_eq_some (h : size.isTooSmall = false) {n : ℕ} (hn : size.room = some n) :
    1 ≤ n := by
  cases size with
  | whole k =>
    simp only [isTooSmall, decide_eq_false_iff_not, room, Option.some.injEq] at h hn
    omega
  | real x =>
    have hnonneg : x.isNegative = false := isNegative_of_not_isTooSmall h
    rw [room, hnonneg, if_neg Bool.false_ne_true] at hn
    cases x with
    | finite negative m q =>
      have hpow (k : ℕ) : 0 < Nat.pow 2 k := Nat.pow_pos Nat.two_pos
      simp only [isTooSmall, Binary64.isLessThanOne, Bool.or_eq_false_iff] at h
      cases hn
      split at h
      · rename_i hq
        rw [if_pos hq]
        exact Nat.mul_pos (Nat.pos_of_ne_zero (of_decide_eq_false h.2)) (hpow _)
      · rename_i hq
        rw [if_neg hq]
        exact Nat.div_pos (Nat.le_of_not_lt (of_decide_eq_false h.2)) (hpow _)
    | infinite negative => cases hn
    | nan => cases hn

end Cache.Size

/-- The texts of the entries are those that are found. -/
theorem Cache.find?_eq_none_iff {c : Cache} {text : String} :
    c.entries.find? (·.text = text) = none ↔ text ∉ c.keys := by
  rw [List.find?_eq_none, keys, List.mem_map, not_exists]
  exact forall_congr' fun e => by rw [not_and, decide_eq_true_eq]

/-- An entry that is used changes its place only. -/
theorem Cache.perm_touch {c : Cache} {e : Cache.Entry} (he : e ∈ c.entries) :
    (c.touch e).entries.Perm c.entries :=
  (List.perm_append_singleton e _).trans (List.perm_cons_erase he).symm

/-- A cache is made if and only if its size is at least one; it is empty. -/
theorem Cache.new?_eq_ok_iff {size : Size} {enabled : Bool} {cache : Cache} :
    new? size enabled = .ok cache ↔
      size.isTooSmall = false ∧ cache = ⟨[], size, enabled, 0, 0⟩ := by
  rw [new?]
  cases size.isTooSmall <;> simp [eq_comm]

/-! ### What is known of a compilation -/

/-- A list with one more element at the end. -/
theorem getElem?_concat {α : Type} (as : List α) (a : α) (n : ℕ) :
    (as ++ [a])[n]? = if n = as.length then some a else as[n]? := by
  split
  · rename_i h
    rw [h, List.getElem?_concat_length]
  · rename_i h
    rw [List.getElem?_append]
    split
    · rfl
    · rw [List.getElem?_eq_none (by simp; omega), List.getElem?_eq_none (by omega)]

namespace Session

variable {s s' : Session} {text : String} {job : ℕ}

/-- The text that is compiled under the given number. -/
def text? (s : Session) (job : ℕ) : Option String := s.jobs[job]?.map Job.text

/-- The compilation has no outcome yet. -/
def Pending (s : Session) (job : ℕ) : Prop := job < s.jobs.length ∧ s.outcome? job = none

theorem text?_eq_none_iff : s.text? job = none ↔ s.jobs.length ≤ job := by
  rw [text?, Option.map_eq_none_iff, List.getElem?_eq_none_iff]

theorem lt_of_text?_eq_some (h : s.text? job = some text) : job < s.jobs.length := by
  rw [← Nat.not_le, ← text?_eq_none_iff, h]
  exact Option.some_ne_none text

/-- An outcome is one of a compilation that was started. -/
theorem lt_of_outcome?_eq_some {o : Outcome} (h : s.outcome? job = some o) :
    job < s.jobs.length := by
  obtain ⟨j, hj, -⟩ := Option.bind_eq_some_iff.1 h
  exact (List.getElem?_eq_some_iff.1 hj).1

/-! ### Look-ups -/

/-- A text is found if and only if it has an entry, which becomes the latest. -/
theorem seek_eq_join_iff : s.seek text = (.join job, s') ↔
    ∃ e, s.cache.entries.find? (·.text = text) = some e ∧ e.job = job ∧
      s' = { s with cache := s.cache.touch e } := by
  rw [seek, Cache.seek]
  cases s.cache.entries.find? (·.text = text) with
  | none => cases s.cache.maxSize.isNegative <;> simp
  | some e => simp [eq_comm]

/-- What is found is an entry of the text. -/
theorem exists_of_seek_eq_join (h : s.seek text = (.join job, s')) :
    ∃ e ∈ s.cache.entries, e.text = text ∧ e.job = job ∧
      s' = { s with cache := s.cache.touch e } := by
  obtain ⟨e, he, hjob, hs'⟩ := seek_eq_join_iff.1 h
  have htext := List.find?_some he
  exact ⟨e, List.mem_of_find?_eq_some he, of_decide_eq_true htext, hjob, hs'⟩

/-- A compilation is started if and only if the text is not found; it gets an entry. -/
theorem seek_eq_start_iff (hsize : s.cache.maxSize.isNegative = false) :
    s.seek text = (.start job, s') ↔
      s.cache.entries.find? (·.text = text) = none ∧ job = s.cache.misses ∧
        s' = { cache := s.cache.insert text, jobs := s.jobs ++ [⟨text, none⟩] } := by
  rw [seek, Cache.seek]
  cases s.cache.entries.find? (·.text = text) with
  | none => simp [hsize, eq_comm]
  | some e => simp

/-! ### The steps and what is known -/

/-- The session with one more compilation, which is going on. -/
abbrev snocJob (s : Session) (cache : Cache) (text : String) : Session :=
  { cache, jobs := s.jobs ++ [⟨text, none⟩] }

theorem text?_snocJob (cache : Cache) :
    (s.snocJob cache text).text? job =
      if job = s.jobs.length then some text else s.text? job := by
  rw [text?, text?, getElem?_concat]
  split <;> rfl

theorem outcome?_snocJob (cache : Cache) :
    (s.snocJob cache text).outcome? job = s.outcome? job := by
  rw [outcome?, outcome?, getElem?_concat]
  split
  · rename_i h
    rw [h, List.getElem?_eq_none (Nat.le_refl _)]
    rfl
  · rfl

@[simp] theorem text?_deliver (n : ℕ) (o : Outcome) :
    (s.deliver n o).text? job = s.text? job := by
  rw [text?, text?, deliver, List.getElem?_modify]
  cases s.jobs[job]? with
  | none => rfl
  | some j => by_cases h : n = job <;> simp [h]

theorem outcome?_deliver_self (h : job < s.jobs.length) (o : Outcome) :
    (s.deliver job o).outcome? job = some o := by
  rw [outcome?, deliver, List.getElem?_modify, List.getElem?_eq_getElem h]
  simp

theorem outcome?_deliver_of_ne {n : ℕ} (h : n ≠ job) (o : Outcome) :
    (s.deliver n o).outcome? job = s.outcome? job := by
  rw [outcome?, outcome?, deliver, List.getElem?_modify]
  simp [h]

/-- Among the compilations that go on is now the new one. -/
theorem pending_snocJob_iff (cache : Cache) :
    (s.snocJob cache text).Pending job ↔ job = s.jobs.length ∨ s.Pending job := by
  rw [Pending, Pending, outcome?_snocJob, List.length_append, List.length_singleton,
    Nat.lt_succ_iff_lt_or_eq, or_and_right, or_comm]
  refine or_congr_left (and_iff_left_of_imp ?_)
  rintro rfl
  rw [outcome?, List.getElem?_eq_none (Nat.le_refl _)]
  rfl

/-- Among the compilations that go on is no longer the one that ended. -/
theorem pending_deliver_iff {n : ℕ} (h : n < s.jobs.length) (o : Outcome) :
    (s.deliver n o).Pending job ↔ job ≠ n ∧ s.Pending job := by
  rw [Pending, Pending, deliver, List.length_modify, ← deliver]
  rcases eq_or_ne n job with rfl | hne
  · simp [outcome?_deliver_self h]
  · simp [outcome?_deliver_of_ne hne, hne.symm]

/-- Nothing that was known of the compilations is lost, and no entry is made for a compilation
that was started before. -/
structure Grows (s s' : Session) : Prop where
  /-- The texts of the compilations remain. -/
  text : ∀ n t, s.text? n = some t → s'.text? n = some t
  /-- The outcomes remain. -/
  outcome : ∀ n o, s.outcome? n = some o → s'.outcome? n = some o
  /-- A new entry is one of a new compilation. -/
  entries : ∀ e ∈ s'.cache.entries, e ∈ s.cache.entries ∨ s.jobs.length ≤ e.job

/-- If only the cache changes, and no entry is new, then nothing is lost. -/
theorem Grows.of_cache {cache : Cache} (h : ∀ e ∈ cache.entries, e ∈ s.cache.entries) :
    s.Grows { s with cache } :=
  ⟨fun _ _ => id, fun _ _ => id, fun e he => .inl (h e he)⟩

theorem Grows.refl (s : Session) : s.Grows s := .of_cache fun _ => id

theorem Grows.touch {e : Cache.Entry} (he : e ∈ s.cache.entries) :
    s.Grows { s with cache := s.cache.touch e } := by
  refine .of_cache fun e' he' => ?_
  rcases List.mem_append.1 he' with h | h
  · exact List.mem_of_mem_erase h
  · rwa [List.mem_singleton.1 h]

/-- After a miss the only new entry is that of the new compilation. -/
theorem mem_or_eq_of_mem_insert {e : Cache.Entry} (he : e ∈ (s.cache.insert text).entries) :
    e ∈ s.cache.entries ∨ e = ⟨text, s.cache.misses⟩ := by
  have hmem := (Cache.evict_suffix s.cache.maxSize _).subset he
  exact (List.mem_append.1 hmem).imp_right List.mem_singleton.1

theorem Grows.start (hmisses : s.cache.misses = s.jobs.length) :
    s.Grows (s.snocJob (s.cache.insert text) text) := by
  refine ⟨fun n t ht => ?_, fun n o ho => ?_, fun e he => ?_⟩
  · rw [text?_snocJob, if_neg (Nat.ne_of_lt (lt_of_text?_eq_some ht)), ht]
  · rw [outcome?_snocJob, ho]
  · refine (mem_or_eq_of_mem_insert he).imp_right fun h => ?_
    rw [h]
    exact Nat.le_of_eq hmisses.symm

theorem Grows.release (text : String) (job : ℕ) : s.Grows (s.release text job) :=
  .of_cache fun _ => List.mem_of_mem_erase

theorem Grows.deliver (h : s.Pending job) (o : Outcome) : s.Grows (s.deliver job o) := by
  refine ⟨fun n t ht => ?_, fun n o' ho' => ?_, fun e he => .inl he⟩
  · rwa [text?_deliver]
  · have hne : job ≠ n := by
      rintro rfl
      rw [h.2] at ho'
      cases ho'
    rwa [outcome?_deliver_of_ne hne]

/-! ### Coherent sessions -/

/-- The entries and the compilations of a session fit together.  The compilations that were
interrupted are those of `stops`. -/
structure Coherent (stops : Compilation → Bool) (s : Session) : Prop where
  /-- The next miss starts the next compilation. -/
  misses : s.cache.misses = s.jobs.length
  /-- The size is not negative. -/
  size : s.cache.maxSize.isNegative = false
  /-- No two entries have the same text. -/
  keys : s.cache.keys.Nodup
  /-- The compilation of an entry is one of its text. -/
  entries : ∀ e ∈ s.cache.entries, s.text? e.job = some e.text
  /-- The compilation of an entry did not fail. -/
  success : ∀ e ∈ s.cache.entries, ∀ o, s.outcome? e.job = some o → ∃ c, o = .ok c
  /-- A compilation ended as it had to. -/
  outcomes : ∀ n t o, s.text? n = some t → s.outcome? n = some o →
    o = Compilation.outcome stops (.shared n) t

variable {stops : Compilation → Bool}

/-- A new session is coherent. -/
theorem Coherent.of_new? {size : Cache.Size} {enabled : Bool} {cache : Cache}
    (h : Cache.new? size enabled = .ok cache) : (ofCache cache).Coherent stops := by
  obtain ⟨hsize, rfl⟩ := Cache.new?_eq_ok_iff.1 h
  exact ⟨rfl, Cache.Size.isNegative_of_not_isTooSmall hsize, List.nodup_nil, nofun, nofun, nofun⟩

namespace Coherent

/-- If only the cache changes, and it loses entries at most, the session stays coherent. -/
theorem of_cache (h : s.Coherent stops) {cache : Cache} (hmisses : cache.misses = s.cache.misses)
    (hsize : cache.maxSize.isNegative = false) (hkeys : cache.keys.Nodup)
    (hentries : ∀ e ∈ cache.entries, e ∈ s.cache.entries) :
    ({ s with cache } : Session).Coherent stops where
  misses := hmisses.trans h.misses
  size := hsize
  keys := hkeys
  entries e he := h.entries e (hentries e he)
  success e he := h.success e (hentries e he)
  outcomes := h.outcomes

theorem touch (h : s.Coherent stops) {e : Cache.Entry} (he : e ∈ s.cache.entries) :
    ({ s with cache := s.cache.touch e } : Session).Coherent stops := by
  have hperm := Cache.perm_touch he
  exact h.of_cache rfl h.size ((hperm.map _).nodup_iff.2 h.keys) fun _ => hperm.mem_iff.1

/-- A text that is not found gives a new key. -/
theorem keys_concat (h : s.Coherent stops)
    (hmiss : s.cache.entries.find? (·.text = text) = none) (job : ℕ) :
    (List.map Cache.Entry.text (s.cache.entries ++ [⟨text, job⟩])).Nodup := by
  have hnew : text ∉ s.cache.keys := Cache.find?_eq_none_iff.1 hmiss
  rw [List.map_append]
  exact (List.perm_append_singleton text s.cache.keys).symm.nodup
    (List.nodup_cons.2 ⟨hnew, h.keys⟩)

/-- A text that is not found gets an entry for a compilation of its own. -/
theorem start (h : s.Coherent stops)
    (hmiss : s.cache.entries.find? (·.text = text) = none) :
    (s.snocJob (s.cache.insert text) text).Coherent stops := by
  have hgrows : s.Grows (s.snocJob (s.cache.insert text) text) := .start h.misses
  refine ⟨?_, h.size, ?_, fun e he => ?_, fun e he o ho => ?_, fun n t o ht ho => ?_⟩
  · rw [List.length_append, ← h.misses]
    rfl
  · have hsuffix := (Cache.evict_suffix s.cache.maxSize
      (s.cache.entries ++ [⟨text, s.cache.misses⟩])).sublist.map Cache.Entry.text
    exact (h.keys_concat hmiss _).sublist hsuffix
  · rcases mem_or_eq_of_mem_insert he with hold | rfl
    · exact hgrows.text _ _ (h.entries e hold)
    · rw [text?_snocJob, if_pos h.misses]
  · rw [outcome?_snocJob] at ho
    rcases mem_or_eq_of_mem_insert he with hold | rfl
    · exact h.success e hold o ho
    · -- the new compilation has no outcome yet
      exact absurd (lt_of_outcome?_eq_some ho) (Nat.not_lt.2 (Nat.le_of_eq h.misses.symm))
  · rw [outcome?_snocJob] at ho
    rw [text?_snocJob, if_neg (Nat.ne_of_lt (lt_of_outcome?_eq_some ho))] at ht
    exact h.outcomes n t o ht ho

/-- An outcome is made known.  If it is a failure, the compilation has no entry any more. -/
theorem deliver (h : s.Coherent stops) {o : Outcome} (htext : s.text? job = some text)
    (ho : o = Compilation.outcome stops (.shared job) text)
    (herror : ∀ f, o = .error f → ∀ e ∈ s.cache.entries, e.job ≠ job) :
    (s.deliver job o).Coherent stops := by
  have hself := outcome?_deliver_self (lt_of_text?_eq_some htext) o
  refine ⟨?_, h.size, h.keys, fun e he => ?_, fun e he o' ho' => ?_, fun n t o' ht ho' => ?_⟩
  · rw [Session.deliver, List.length_modify]
    exact h.misses
  · rw [text?_deliver]
    exact h.entries e he
  · rcases eq_or_ne job e.job with rfl | hne
    · rw [hself, Option.some.injEq] at ho'
      subst ho'
      cases ho' : o with
      | error f => exact absurd rfl (herror f ho' e he)
      | ok c => exact ⟨c, rfl⟩
    · rw [outcome?_deliver_of_ne hne] at ho'
      exact h.success e he o' ho'
  · rw [text?_deliver] at ht
    rcases eq_or_ne job n with rfl | hne
    · rw [htext, Option.some.injEq] at ht
      rw [hself, Option.some.injEq] at ho'
      rw [← ho', ho, ht]
    · rw [outcome?_deliver_of_ne hne] at ho'
      exact h.outcomes n t o' ht ho'

theorem release (h : s.Coherent stops) (text : String) (job : ℕ) :
    (s.release text job).Coherent stops :=
  h.of_cache rfl h.size (h.keys.sublist (List.erase_sublist.map _)) fun _ => List.mem_of_mem_erase

/-- Giving back the entry of a compilation leaves the entries of all others. -/
theorem entries_release (h : s.Coherent stops) (htext : s.text? job = some text) :
    (s.release text job).cache.entries = s.cache.entries.filter (·.job ≠ job) := by
  have hnodup : s.cache.entries.Nodup := .of_map _ h.keys
  rw [Session.release, mapCache, Cache.release, hnodup.erase_eq_filter]
  refine List.filter_congr fun e he => Bool.eq_iff_iff.2 ?_
  rw [bne_iff_ne, decide_eq_true_eq]
  refine not_congr ⟨fun heq => by rw [heq], fun hjob => ?_⟩
  have hentry := h.entries e he
  rw [hjob, htext, Option.some.injEq] at hentry
  rw [hentry, ← hjob]

/-- Whoever looks up the text of an entry joins its compilation. -/
theorem seek_of_mem (h : s.Coherent stops) {e : Cache.Entry} (he : e ∈ s.cache.entries) :
    s.seek e.text = (.join e.job, { s with cache := s.cache.touch e }) := by
  refine seek_eq_join_iff.2 ⟨e, ?_, rfl, rfl⟩
  cases hfound : s.cache.entries.find? (·.text = e.text) with
  | none => exact absurd (List.mem_map_of_mem he) (Cache.find?_eq_none_iff.1 hfound)
  | some e' =>
    have htext := List.find?_some hfound
    exact congrArg some (List.inj_on_of_nodup_map h.keys (List.mem_of_find?_eq_some hfound) he
      (of_decide_eq_true htext))

/-- The compilation of an entry that has its outcome succeeded. -/
theorem compile_eq_ok (h : s.Coherent stops) {e : Cache.Entry} (he : e ∈ s.cache.entries)
    {o : Outcome} (ho : s.outcome? e.job = some o) : ∃ c, compile e.text = .ok c ∧ o = .ok c := by
  obtain ⟨c, rfl⟩ := h.success e he o ho
  have houtcome := h.outcomes e.job e.text _ (h.entries e he) ho
  exact ⟨c, (Compilation.outcome_eq_ok_iff.1 houtcome.symm).2, rfl⟩

theorem clear (h : s.Coherent stops) : (s.mapCache Cache.clear).Coherent stops :=
  h.of_cache rfl h.size List.nodup_nil nofun

theorem setEnabled (h : s.Coherent stops) (enabled : Bool) :
    (s.mapCache (·.setEnabled enabled)).Coherent stops :=
  h.of_cache rfl h.size h.keys fun _ => id

theorem setMaxSize (h : s.Coherent stops) {maxSize : Cache.Size}
    (hsize : maxSize.isNegative = false) :
    (s.mapCache (·.setMaxSize maxSize)).Coherent stops :=
  h.of_cache rfl hsize h.keys fun _ => id

end Coherent

end Session

end SemverRange
