import SemverRange.Proofs.Cache.AtMostOnce
import SemverRange.Proofs.Cache.Sequence

/-!
# The least recently requested texts make room

A cache with room for `n` entries, on which calls are made one after the other for texts that
compile, holds the `n` texts that were requested last.  How recent a text is is said of the list
of requests alone: by how many different other texts were requested after it.  The different texts
in the order of their last requests are `texts.dedup`, which keeps the last occurrence of each.

## Main definitions

* `Recent` — the text is one of the `n` that were requested last.
* `repeats` — how many requests were for texts that were recent.

## Main results

* `mem_rtake_dedup_iff`, `pairwise_dedup` — the recent texts and their order.
* `Session.Resting.keys_get` — what a call does to the texts of a cache.
* `Session.keys_getAll` — **the cache holds the texts that are recent, in the order of their last
  requests, and the requests that find one are those that were recent**.
-/

namespace SemverRange

variable {text other : String} {texts : List String} {n : ℕ}

/-- The text was requested, and after its last request there were fewer than `n` different
others. -/
def Recent (n : ℕ) (text : String) (texts : List String) : Prop :=
  text ∈ texts ∧ othersSince text texts < n

instance (n : ℕ) (text : String) (texts : List String) : Decidable (Recent n text texts) :=
  inferInstanceAs (Decidable (_ ∧ _))

/-- How many of the requests were for a text that was recent when it was requested. -/
def repeats (n : ℕ) (texts : List String) : ℕ :=
  texts.zipIdx.countP fun r => Recent n r.1 (texts.take r.2)

theorem repeats_concat (n : ℕ) (texts : List String) (text : String) :
    repeats n (texts ++ [text]) = repeats n texts + if Recent n text texts then 1 else 0 := by
  -- the requests before the last one have the same ones before them
  have hold : texts.zipIdx.countP (fun r => Recent n r.1 ((texts ++ [text]).take r.2)) =
      repeats n texts := by
    refine List.countP_congr fun r hr => ?_
    have hlt : r.2 ≤ texts.length := Nat.le_of_lt (by simpa using List.snd_lt_of_mem_zipIdx hr)
    rw [List.take_append_of_le_length hlt]
  rw [repeats, List.zipIdx_append, List.countP_append, hold]
  simp

/-! ### The order of the last requests -/

theorem exists_eq_append_since (h : text ∈ texts) :
    ∃ pre, texts = pre ++ text :: since text texts := by
  induction texts using List.reverseRecOn with
  | nil => cases h
  | append_singleton texts other ih =>
    by_cases heq : other = text
    · subst heq
      exact ⟨texts, by rw [since_concat_self]⟩
    · obtain ⟨pre, hpre⟩ := ih (by simpa [Ne.symm heq] using h)
      refine ⟨pre, ?_⟩
      rw [since_concat_of_ne heq, ← List.cons_append, ← List.append_assoc, ← hpre]

/-- Behind a text are the different ones that were requested after it. -/
theorem exists_dedup_eq_append (h : text ∈ texts) :
    ∃ pre, texts.dedup = pre ++ text :: (since text texts).dedup := by
  obtain ⟨pre, hpre⟩ := exists_eq_append_since h
  have hdedup : texts.dedup = pre ∪ (text :: since text texts).dedup := by
    rw [← List.dedup_append, ← hpre]
  obtain ⟨pre', hpre'⟩ := List.suffix_union_right pre (text :: since text texts).dedup
  rw [List.dedup_cons_of_notMem (notMem_since text texts)] at hdedup hpre'
  exact ⟨pre', by rw [hdedup, hpre']⟩

/-- The text that is requested becomes the latest. -/
theorem dedup_concat (texts : List String) (text : String) :
    (texts ++ [text]).dedup = texts.dedup.erase text ++ [text] := by
  induction texts with
  | nil => simp
  | cons other texts ih =>
    rw [List.cons_append]
    by_cases hmem : other ∈ texts
    · rw [List.dedup_cons_of_mem (List.mem_append_left _ hmem), List.dedup_cons_of_mem hmem, ih]
    · have hdedup : other ∉ texts.dedup := fun h => hmem (List.mem_dedup.1 h)
      rw [List.dedup_cons_of_notMem hmem]
      by_cases heq : other = text
      · subst heq
        rw [List.dedup_cons_of_mem (by simp), ih, List.erase_cons_head,
          List.erase_of_not_mem hdedup]
      · rw [List.dedup_cons_of_notMem (by simp [hmem, heq]), ih,
          List.erase_cons_tail (by simpa using heq), List.cons_append]

/-- Of two texts, the later one was requested after the last request of the other. -/
theorem pairwise_dedup (texts : List String) :
    texts.dedup.Pairwise fun text other => other ∈ since text texts := by
  induction texts using List.reverseRecOn with
  | nil => exact .nil
  | append_singleton texts latest ih =>
    have hne : ∀ text ∈ texts.dedup.erase latest, latest ≠ text := by
      rintro text htext rfl
      exact texts.nodup_dedup.not_mem_erase htext
    rw [dedup_concat, List.pairwise_append]
    refine ⟨?_, List.pairwise_singleton _ _, fun text htext other hother => ?_⟩
    · refine (ih.sublist List.erase_sublist).imp_of_mem fun htext _ hother => ?_
      rw [since_concat_of_ne (hne _ htext)]
      exact List.mem_append_left _ hother
    · rw [since_concat_of_ne (hne text htext), List.mem_singleton.1 hother]
      exact List.mem_append_right _ (List.mem_singleton_self _)

/-! ### The latest of a list -/

section Latest

variable {α : Type}

theorem rtake_append_of_le_length {as bs : List α} (h : n ≤ bs.length) :
    (as ++ bs).rtake n = bs.rtake n := by
  rw [List.rtake, List.rtake, List.length_append, Nat.add_sub_assoc h,
    List.drop_length_add_append]

/-- An element is among the latest if there are few enough behind it. -/
theorem mem_rtake_iff {as bs : List α} {a : α} (h : (as ++ a :: bs).Nodup) :
    a ∈ (as ++ a :: bs).rtake n ↔ bs.length < n := by
  constructor
  · intro hmem
    by_contra hle
    rw [← List.singleton_append, ← List.append_assoc,
      rtake_append_of_le_length (Nat.le_of_not_lt hle)] at hmem
    exact (List.nodup_cons.1 (List.nodup_append.1 h).2.1).1 (List.mem_of_mem_drop hmem)
  · intro hlt
    have hle : (as ++ a :: bs).length - n ≤ as.length := by
      rw [List.length_append, List.length_cons]
      omega
    rw [List.rtake, List.drop_append_of_le_length hle]
    exact List.mem_append_right _ List.mem_cons_self

/-- When an element is left out of a list, the latest `n` of the others are among the latest
`n + 1` of the list. -/
theorem rtake_erase [DecidableEq α] {as : List α} (h : as.Nodup) (a : α) (n : ℕ) :
    ((as.rtake (n + 1)).erase a).rtake n = (as.erase a).rtake n := by
  rcases Nat.le_total as.length (n + 1) with hle | hle
  · rw [rtake_of_length_le hle]
  · obtain ⟨pre, hpre⟩ : as.rtake (n + 1) <:+ as := List.drop_suffix _ _
    have hlen : (as.rtake (n + 1)).length = n + 1 := by
      rw [List.rtake, List.length_drop]
      omega
    generalize as.rtake (n + 1) = bs at hpre hlen ⊢
    subst hpre
    have hbs : n ≤ (bs.erase a).length := by
      have hlt : bs.length - 1 ≤ (bs.erase a).length := List.le_length_erase
      omega
    rw [List.erase_append]
    split
    · next hmem =>
      have hnot : a ∉ bs := fun ha => (List.nodup_append.1 h).2.2 a hmem a ha rfl
      rw [List.erase_of_not_mem hnot] at hbs ⊢
      rw [rtake_append_of_le_length hbs]
    · rw [rtake_append_of_le_length hbs]

end Latest

/-- A text is among the latest `n` if and only if it is recent. -/
theorem mem_rtake_dedup_iff : text ∈ texts.dedup.rtake n ↔ Recent n text texts := by
  by_cases hmem : text ∈ texts
  · obtain ⟨pre, hpre⟩ := exists_dedup_eq_append hmem
    have hnodup := texts.nodup_dedup
    rw [hpre] at hnodup ⊢
    rw [mem_rtake_iff hnodup, Recent, and_iff_right hmem, othersSince]
  · refine iff_of_false (fun h => hmem ?_) fun h => hmem h.1
    exact List.mem_dedup.1 (List.mem_of_mem_drop h)

namespace Session

open Cache

variable {s : Session}

/-! ### What a call does to the texts of a cache -/

/-- The texts of the latest entries are the latest texts. -/
theorem keys_rtake (entries : List Entry) (n : ℕ) :
    (entries.rtake n).map Entry.text = (entries.map Entry.text).rtake n := by
  rw [List.rtake, List.rtake, List.map_drop, List.length_map]

/-- No other entry has the text of the one that becomes the latest. -/
theorem Coherent.keys_touch {stops : Compilation → Bool} (h : s.Coherent stops) {e : Entry}
    (he : e ∈ s.cache.entries) :
    (s.cache.touch e).keys = s.cache.keys.erase e.text ++ [e.text] := by
  have hnodup : s.cache.entries.Nodup := .of_map _ h.keys
  have herase : (s.cache.entries.erase e).map Entry.text = s.cache.keys.erase e.text := by
    rw [h.keys.erase_eq_filter, Cache.keys, List.filter_map, hnodup.erase_eq_filter]
    refine congrArg _ (List.filter_congr fun e' he' => ?_)
    rw [Function.comp_apply, Bool.eq_iff_iff, bne_iff_ne, bne_iff_ne]
    exact not_congr ⟨congrArg Entry.text, List.inj_on_of_nodup_map h.keys he' he⟩
  rw [Cache.touch, Cache.keys, List.map_append, herase]
  rfl

/-- The text that is asked for becomes the latest of the `n` for which there is room. -/
theorem Resting.keys_get (h : s.Resting n) {c : Compiled} (hc : compile text = .ok c) :
    (s.get text).2.cache.keys = (s.cache.keys.erase text).rtake (n - 1) ++ [text] := by
  by_cases hmem : text ∈ s.cache.keys
  · have hlen : (s.cache.keys.erase text).length ≤ n - 1 := by
      rw [List.length_erase_of_mem hmem, keys, List.length_map]
      exact Nat.sub_le_sub_right h.fits 1
    obtain ⟨e, he, rfl⟩ := List.mem_map.1 hmem
    rw [h.get_of_mem he, rtake_of_length_le hlen]
    exact h.coherent.keys_touch he
  · rw [h.cache_get_of_compile hmem hc, keys, h.entries_insert, List.map_append, keys_rtake,
      List.erase_of_not_mem hmem]
    rfl

/-- A call counts as a hit if its text is there, and as a miss if not. -/
theorem Resting.counts_get (h : s.Resting n) (text : String) :
    (s.get text).2.cache.hits = s.cache.hits + (if text ∈ s.cache.keys then 1 else 0) ∧
    (s.get text).2.cache.misses = s.cache.misses + (if text ∈ s.cache.keys then 0 else 1) := by
  by_cases hmem : text ∈ s.cache.keys
  · rw [if_pos hmem, if_pos hmem]
    obtain ⟨e, he, rfl⟩ := List.mem_map.1 hmem
    rw [h.get_of_mem he]
    exact ⟨rfl, rfl⟩
  · rw [if_neg hmem, if_neg hmem]
    cases hcompile : compile text with
    | ok c =>
      rw [h.cache_get_of_compile hmem hcompile]
      exact ⟨rfl, rfl⟩
    | error f =>
      rw [h.cache_get_of_fault hcompile]
      exact ⟨rfl, rfl⟩

/-- The text is found if and only if it is there. -/
theorem Resting.exists_join_iff (h : s.Resting n) (text : String) :
    (∃ job, (s.enter text).1 = .join job) ↔ text ∈ s.cache.keys := by
  rw [enter, h.enabled, if_pos rfl]
  by_cases hmem : text ∈ s.cache.keys
  · refine iff_of_true ?_ hmem
    obtain ⟨e, he, rfl⟩ := List.mem_map.1 hmem
    rw [h.coherent.seek_of_mem he]
    exact ⟨e.job, rfl⟩
  · refine iff_of_false ?_ hmem
    rw [(seek_eq_start_iff h.coherent.size).2 ⟨find?_eq_none_iff.2 hmem, rfl, rfl⟩]
    rintro ⟨job, ⟨⟩⟩

/-! ### Calls in a row -/

theorem getAll_concat (s : Session) (texts : List String) (text : String) :
    (s.getAll (texts ++ [text])).2 = ((s.getAll texts).2.get text).2 := by
  induction texts generalizing s with
  | nil => rfl
  | cons other texts ih => exact ih (s.get other).2

section Fresh

variable {size : Size} {cache : Cache} (hnew : Cache.new? size true = .ok cache)
  (hroom : size.room = some n)
include hnew hroom

/-- After calls for texts that compile, the texts of the cache are the latest `n`. -/
theorem keys_eq_rtake (hok : ∀ text ∈ texts, ∃ c, compile text = .ok c) :
    ((ofCache cache).getAll texts).2.cache.keys = texts.dedup.rtake n := by
  induction texts using List.reverseRecOn with
  | nil =>
    obtain ⟨-, rfl⟩ := Cache.new?_eq_ok_iff.1 hnew
    rw [List.dedup_nil, List.rtake_nil]
    rfl
  | append_singleton texts text ih =>
    have h : Resting n ((ofCache cache).getAll texts).2 :=
      (Resting.of_new? hnew hroom).getAll texts
    obtain ⟨c, hc⟩ := hok text (by simp)
    obtain ⟨m, rfl⟩ := Nat.exists_eq_add_one.2 h.pos
    rw [getAll_concat, h.keys_get hc, ih fun t ht => hok t (List.mem_append_left _ ht),
      Nat.add_sub_cancel, rtake_erase texts.nodup_dedup, dedup_concat, List.rtake_concat_succ]

/-- The next text is there if and only if it is recent. -/
theorem mem_keys_iff_recent (hok : ∀ text ∈ texts, ∃ c, compile text = .ok c) (text : String) :
    text ∈ ((ofCache cache).getAll texts).2.cache.keys ↔ Recent n text texts := by
  rw [keys_eq_rtake hnew hroom hok, mem_rtake_dedup_iff]

/-- Every request is counted, and those for recent texts are the hits. -/
theorem counts_getAll (hok : ∀ text ∈ texts, ∃ c, compile text = .ok c) :
    ((ofCache cache).getAll texts).2.cache.hits = repeats n texts ∧
    ((ofCache cache).getAll texts).2.cache.hits + ((ofCache cache).getAll texts).2.cache.misses =
      texts.length := by
  induction texts using List.reverseRecOn with
  | nil =>
    obtain ⟨-, rfl⟩ := Cache.new?_eq_ok_iff.1 hnew
    exact ⟨rfl, rfl⟩
  | append_singleton texts text ih =>
    have hok' : ∀ t ∈ texts, ∃ c, compile t = .ok c := fun t ht =>
      hok t (List.mem_append_left _ ht)
    have h : Resting n ((ofCache cache).getAll texts).2 :=
      (Resting.of_new? hnew hroom).getAll texts
    obtain ⟨hhits, hmisses⟩ := h.counts_get text
    obtain ⟨ihhits, ihcount⟩ := ih hok'
    simp only [mem_keys_iff_recent hnew hroom hok' text] at hhits hmisses
    rw [getAll_concat, hhits, hmisses, List.length_append, List.length_singleton, repeats_concat,
      ← ihcount, ihhits]
    refine ⟨rfl, ?_⟩
    split <;> omega

end Fresh

/-- **A cache holds the texts that were requested last.**  After calls one after the other, on a
new cache with room for `n` entries, for texts that compile, its texts are the different ones that
were requested, in the order of their last requests and without the oldest ones if there are more
than `n`: those after whose last request fewer than `n` others were requested.  A call was a hit if
and only if that was true of its text when it was made; all others were misses.  Every call ended
with what its text compiles to. -/
theorem keys_getAll {size : Size} {cache : Cache} (hnew : Cache.new? size true = .ok cache)
    (hroom : size.room = some n) (hok : ∀ text ∈ texts, ∃ c, compile text = .ok c) :
    let run := (ofCache cache).getAll texts
    let keys := run.2.cache.keys
    keys = texts.dedup.rtake n ∧
    keys.length = min n texts.dedup.length ∧
    keys.Nodup ∧
    keys.Pairwise (fun text other => other ∈ since text texts) ∧
    (∀ text, text ∈ keys ↔ text ∈ texts ∧ othersSince text texts < n) ∧
    (∀ before text, before ++ [text] <+: texts →
      ((∃ job, (((ofCache cache).getAll before).2.enter text).1 = .join job) ↔
        text ∈ before ∧ othersSince text before < n)) ∧
    run.2.cache.hits = repeats n texts ∧
    run.2.cache.hits + run.2.cache.misses = texts.length ∧
    run.1 = texts.map fun text => some (outcomeOf text) := by
  intro run keys
  have h : (ofCache cache).Resting n := .of_new? hnew hroom
  have hkeys : keys = texts.dedup.rtake n := keys_eq_rtake hnew hroom hok
  have hsublist : keys.Sublist texts.dedup := hkeys ▸ List.drop_sublist _ _
  obtain ⟨hhits, hcount⟩ := counts_getAll hnew hroom hok
  refine ⟨hkeys, ?_, texts.nodup_dedup.sublist hsublist, (pairwise_dedup texts).sublist hsublist,
    mem_keys_iff_recent hnew hroom hok, ?_, hhits, hcount, h.outcomes_getAll texts⟩
  · rw [hkeys, List.rtake, List.length_drop]
    omega
  · rintro before text ⟨after, rfl⟩
    rw [(h.getAll before).exists_join_iff]
    exact mem_keys_iff_recent hnew hroom (fun t ht => hok t (by simp [ht])) text

/-- Four requests for three texts in a cache for two entries: the third one is a hit, and the
text of the second one makes room. -/
theorem keys_getAll_forTwo :
    Cache.new? (.whole 2) true = .ok SharedSession.forTwo ∧
    (∀ text ∈ ["1", "2", "1", "3"], ∃ c, compile text = .ok c) ∧
    let s := ((ofCache SharedSession.forTwo).getAll ["1", "2", "1", "3"]).2
    s.cache.keys = ["1", "3"] ∧ s.cache.hits = 1 ∧ s.cache.misses = 3 := by
  have hnew : Cache.new? (.whole 2) true = .ok SharedSession.forTwo := rfl
  have hok : ∀ text ∈ ["1", "2", "1", "3"], ∃ c, compile text = .ok c := by
    have hall : ∀ text ∈ ["1", "2", "1", "3"], (compile text).isOk = true := by decide +kernel
    exact fun text htext => compile_isOk_iff.1 (hall text htext)
  have hroom : Size.room (.whole 2) = some 2 := rfl
  obtain ⟨hkeys, -, -, -, -, -, hhits, hcount, -⟩ := keys_getAll hnew hroom hok
  have hrepeats : repeats 2 ["1", "2", "1", "3"] = 1 := by decide +kernel
  rw [hhits, hrepeats] at hcount
  exact ⟨hnew, hok, hkeys.trans (by decide +kernel), hhits.trans hrepeats,
    Nat.add_left_cancel (hcount.trans (by decide : _ = 1 + 3))⟩

end Session

end SemverRange
