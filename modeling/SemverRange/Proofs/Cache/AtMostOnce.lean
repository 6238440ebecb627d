import Mathlib.Data.List.Dedup
import Mathlib.Data.List.DropRight
import Mathlib.Data.List.Perm.Subperm
import SemverRange.Proofs.Cache.Ownership

/-!
# A text is compiled once at a time, or is overtaken

As long as the entry of a running compilation is in the cache, whoever looks the text up joins
it.  The entry is dropped when it is the oldest and room is needed, whether its compilation runs
or not.  So a text can be compiled twice at a time: it is looked up, then as many other texts as
the cache has room for, and then it is looked up again.

This is the only way.  The entries behind that of a running compilation are ones of texts that
were looked up after it; while these are fewer than there is room for, the entry stays.  So if a
text whose compilation runs is never looked up after too many others, then it is compiled once at
a time.  In particular this is so in a cache that has room for all texts that are ever looked up.

## Main definitions

* `since`, `othersSince` — what was looked up since a text was.
* `Cache.FollowedBy` — an entry, and which ones are behind it.
* `SharedSession.Overtaken` — a text was looked up again too late, while its compilation ran.

## Main results

* `SharedSession.not_overtaken` — a cache with room for all texts lets none be overtaken.
* `SharedSession.once_of_not_overtaken` — **a text that is not overtaken is compiled once at a
  time**.
* `SharedSession.compiled_twice` — a text is compiled twice at a time.
-/

namespace SemverRange

/-! ### What was looked up -/

/-- The texts behind the last occurrence of `text`. -/
def since (text : String) (texts : List String) : List String := texts.rtakeWhile (· ≠ text)

/-- How many different texts there are behind the last occurrence of `text`. -/
def othersSince (text : String) (texts : List String) : ℕ := (since text texts).dedup.length

theorem since_concat_self (text : String) (texts : List String) :
    since text (texts ++ [text]) = [] :=
  List.rtakeWhile_concat_neg _ _ _ (by simp)

theorem since_concat_of_ne {text other : String} (h : other ≠ text) (texts : List String) :
    since text (texts ++ [other]) = since text texts ++ [other] :=
  List.rtakeWhile_concat_pos _ _ _ (by simpa using h)

theorem notMem_since (text : String) (texts : List String) : text ∉ since text texts := by
  intro hmem
  simpa using List.mem_rtakeWhile_imp hmem

/-- Among more texts there are at least as many different ones. -/
theorem length_dedup_le {texts texts' : List String} (h : texts ⊆ texts') :
    texts.dedup.length ≤ texts'.dedup.length :=
  (texts.nodup_dedup.subperm fun _ ht => List.mem_dedup.2 (h (List.mem_dedup.1 ht))).length_le

theorem othersSince_le_concat {text other : String} (h : other ≠ text) (texts : List String) :
    othersSince text texts ≤ othersSince text (texts ++ [other]) := by
  rw [othersSince, othersSince, since_concat_of_ne h]
  exact length_dedup_le (List.subset_append_left _ _)

/-- The texts behind the last occurrence of a text are others. -/
theorem othersSince_lt {text : String} {texts texts' : List String} (h : text ∈ texts')
    (hsub : texts ⊆ texts') : othersSince text texts < texts'.dedup.length := by
  have hnot : text ∉ (since text texts).dedup := fun hmem =>
    notMem_since text texts (List.mem_dedup.1 hmem)
  have hcons : (text :: (since text texts).dedup).Nodup :=
    List.nodup_cons.2 ⟨hnot, List.nodup_dedup _⟩
  refine (hcons.subperm fun t ht => List.mem_dedup.2 ?_).length_le
  rcases List.mem_cons.1 ht with rfl | ht
  · exact h
  · exact hsub ((List.rtakeWhile_suffix _ _).subset (List.mem_dedup.1 ht))

/-! ### Entries in the order of their use -/

namespace Cache

/-- The entry is there, and behind it there are only entries of the given texts. -/
def FollowedBy (entries : List Entry) (e : Entry) (texts : List String) : Prop :=
  ∃ pre post, entries = pre ++ e :: post ∧ ∀ e' ∈ post, e'.text ∈ texts

variable {entries : List Entry} {e e' : Entry} {texts : List String}

theorem FollowedBy.mem (h : FollowedBy entries e texts) : e ∈ entries := by
  obtain ⟨pre, post, rfl, -⟩ := h
  exact List.mem_append_right pre List.mem_cons_self

/-- Nothing is behind the latest entry. -/
theorem FollowedBy.latest (entries : List Entry) (e : Entry) : FollowedBy (entries ++ [e]) e [] :=
  ⟨entries, [], rfl, nofun⟩

theorem FollowedBy.concat (h : FollowedBy entries e texts) (e' : Entry) :
    FollowedBy (entries ++ [e']) e (texts ++ [e'.text]) := by
  obtain ⟨pre, post, rfl, hpost⟩ := h
  refine ⟨pre, post ++ [e'], by simp, fun x hx => ?_⟩
  rcases List.mem_append.1 hx with hx | hx
  · exact List.mem_append_left _ (hpost x hx)
  · rw [List.mem_singleton.1 hx]
    exact List.mem_append_right _ (List.mem_singleton_self _)

theorem FollowedBy.filter (h : FollowedBy entries e texts) {p : Entry → Bool} (he : p e = true) :
    FollowedBy (entries.filter p) e texts := by
  obtain ⟨pre, post, rfl, hpost⟩ := h
  refine ⟨pre.filter p, post.filter p, ?_, fun x hx => hpost x (List.mem_of_mem_filter hx)⟩
  rw [List.filter_append, List.filter_cons_of_pos he]

theorem FollowedBy.erase (h : FollowedBy entries e texts) (hne : e' ≠ e) :
    FollowedBy (entries.erase e') e texts := by
  obtain ⟨pre, post, rfl, hpost⟩ := h
  rw [List.erase_append]
  split
  · exact ⟨pre.erase e', post, rfl, hpost⟩
  · refine ⟨pre, post.erase e', ?_, fun x hx => hpost x (List.mem_of_mem_erase hx)⟩
    rw [List.erase_cons_tail (by simpa using hne.symm)]

/-- An entry is dropped only if there is no room for it and the texts behind it. -/
theorem FollowedBy.evict (h : FollowedBy entries e texts) (hkeys : (entries.map Entry.text).Nodup)
    {size : Size} (hroom : ∀ n, size.room = some n → texts.dedup.length < n) :
    FollowedBy (evict size entries) e texts := by
  cases hn : size.room with
  | none => rwa [Cache.evict, hn]
  | some n =>
    obtain ⟨pre, post, rfl, hpost⟩ := h
    rw [Cache.evict, hn]
    have hnodup : (post.map Entry.text).Nodup := by
      rw [List.map_append, List.map_cons] at hkeys
      exact (List.nodup_append.1 hkeys).2.1.of_cons
    -- the entries behind have different texts, so there are no more of them than texts
    have hlen : post.length ≤ texts.dedup.length := by
      rw [← List.length_map Entry.text]
      refine (hnodup.subperm fun t ht => ?_).length_le
      obtain ⟨x, hx, rfl⟩ := List.mem_map.1 ht
      exact List.mem_dedup.2 (hpost x hx)
    have hlt := hroom n hn
    refine ⟨pre.drop ((pre ++ e :: post).length - n), post, ?_, hpost⟩
    rw [Option.elim_some, Cache.latest, List.drop_append_of_le_length]
    rw [List.length_append, List.length_cons]
    omega

end Cache

open Session Cache

namespace SharedSession

/-! ### Runs of calls -/

/-- The event is a step of a call. -/
def Event.isOfCall : Event → Bool
  | clear | setEnabled _ | setMaxSize _ => false
  | _ => true

/-- The text that is looked up in the step. -/
def Event.text? : Event → Option String
  | seek _ text => some text
  | _ => none

/-- The texts that are looked up in some steps. -/
def lookedUp (es : List Event) : List String := es.filterMap Event.text?

theorem lookedUp_concat (es : List Event) (e : Event) :
    lookedUp (es ++ [e]) = lookedUp es ++ e.text?.toList := by
  rw [lookedUp, List.filterMap_append]
  cases h : e.text? <;> simp [lookedUp, h]

/-- Since the text was looked up, fewer others were than there is room for. -/
def InTime (size : Size) (text : String) (texts : List String) : Prop :=
  ∀ n, size.room = some n → othersSince text texts < n

/-- The call `i` compiles the text under the number `n`. -/
def Compiles (w : SharedSession) (text : String) (i n : ℕ) : Prop :=
  w.calls[i]? = some ⟨text, .compiling (.shared n)⟩

/-- Somewhere in the steps that start at `w`, the text was looked up while a call was compiling it,
and not in time. -/
def Overtaken (stops : Compilation → Bool) (w : SharedSession) (text : String)
    (es : List Event) : Prop :=
  ∃ es' i w', ∃ j : ℕ, ∃ k, es' ++ [.seek i text] <+: es ∧ Run stops w es' w' ∧
    w'.calls[j]? = some ⟨text, .compiling k⟩ ∧
    ¬ InTime w'.session.cache.maxSize text (lookedUp es')

variable {stops : Compilation → Bool} {w₀ w w' : SharedSession} {s : Session} {size : Size}
  {text other : String} {phase : Phase} {es : List Event} {e : Event} {i j n : ℕ}

theorem Overtaken.concat (h : Overtaken stops w₀ text es) (e : Event) :
    Overtaken stops w₀ text (es ++ [e]) := by
  obtain ⟨es', i, w', j, k, hes, hrest⟩ := h
  exact ⟨es', i, w', j, k, hes.trans (List.prefix_append _ _), hrest⟩

/-- A text that is not overtaken is looked up in time if it is compiled. -/
theorem inTime_of_not_overtaken (hrun : Run stops w₀ es w) (hcall : w.Compiles text j n)
    (h : ¬ Overtaken stops w₀ text (es ++ [.seek i text])) :
    InTime w.session.cache.maxSize text (lookedUp es) :=
  not_not.1 fun hlate => h ⟨es, i, w, j, .shared n, List.prefix_rfl, hrun, hcall, hlate⟩

/-- What calls do not change. -/
structure Steady (size : Size) (w : SharedSession) : Prop where
  /-- The cache is on. -/
  enabled : w.session.cache.enabled = true
  /-- The size is as it was. -/
  maxSize : w.session.cache.maxSize = size
  /-- No call compiles for itself alone. -/
  shared : ∀ (i : ℕ) text k, w.calls[i]? = some ⟨text, .compiling k⟩ → ∃ n, k = .shared n

theorem Steady.advance (h : w.Steady size) (henabled : s.cache.enabled = true)
    (hsize : s.cache.maxSize = size) (hphase : ∀ k, phase = .compiling k → ∃ n, k = .shared n) :
    Steady size (w.advance s i text phase) := by
  refine ⟨henabled, hsize, fun j text' k hcall => ?_⟩
  rcases eq_or_of_call_advance hcall with ⟨-, hc⟩ | ⟨-, hold⟩
  · cases hc
    exact hphase k rfl
  · exact h.shared j text' k hold

theorem Steady.step (h : w.Steady size) (hinv : w.Inv stops) (hcall : e.isOfCall = true)
    (hstep : Step stops w e w') : w'.Steady size := by
  cases hstep with
  | callOn text on =>
    refine ⟨h.enabled, h.maxSize, fun i text' k hi => ?_⟩
    rcases eq_or_of_call_concat hi with ⟨-, hc⟩ | hold
    · cases hc
    · exact h.shared i text' k hold
  | callOff text off =>
    rw [h.enabled] at off
    cases off
  | join is_call found =>
    obtain ⟨e, -, -, -, rfl⟩ := exists_of_seek_eq_join found
    exact h.advance h.enabled h.maxSize nofun
  | start is_call found =>
    obtain ⟨-, -, rfl⟩ := (seek_eq_start_iff hinv.coherent.size).1 found
    refine h.advance h.enabled h.maxSize fun k hk => ?_
    cases hk
    exact ⟨_, rfl⟩
  | clear => cases hcall
  | setEnabled enabled => cases hcall
  | setMaxSize maxSize not_negative => cases hcall
  | _ => exact h.advance h.enabled h.maxSize nofun

/-! ### Once at a time -/

/-- The compilation `n` of the text is found by whoever looks the text up in time. -/
def Findable (w : SharedSession) (texts : List String) (text : String) (n : ℕ) : Prop :=
  InTime w.session.cache.maxSize text texts →
    FollowedBy w.session.cache.entries ⟨text, n⟩ (since text texts)

/-- The text is compiled once at a time, and whoever looks it up in time finds the compilation. -/
structure Once (w : SharedSession) (texts : List String) (text : String) : Prop where
  /-- No two calls compile the text. -/
  unique : ∀ i j n m, w.Compiles text i n → w.Compiles text j m → i = j
  /-- A compilation of the text can be found. -/
  findable : ∀ i n, w.Compiles text i n → w.Findable texts text n

variable {texts : List String}

/-- A call is made. -/
theorem compiles_of_concat
    (h : Compiles { w with calls := w.calls ++ [⟨other, phase⟩] } text j n)
    (hphase : phase ≠ .compiling (.shared n)) : w.Compiles text j n := by
  rcases eq_or_of_call_concat h with ⟨-, hc⟩ | hold
  · cases hc
    exact absurd rfl hphase
  · exact hold

/-- A call takes a step without starting a compilation. -/
theorem compiles_of_advance (h : (w.advance s i other phase).Compiles text j n)
    (hphase : phase ≠ .compiling (.shared n)) : j ≠ i ∧ w.Compiles text j n := by
  rcases eq_or_of_call_advance h with ⟨-, hc⟩ | hold
  · cases hc
    exact absurd rfl hphase
  · exact hold

/-- Nothing is looked up, and no compilation starts. -/
theorem Once.of_quiet (h : w.Once texts text) (he : e.text? = none)
    (hcalls : ∀ i n, w'.Compiles text i n → w.Compiles text i n)
    (hsize : w'.session.cache.maxSize = w.session.cache.maxSize)
    (hentries : ∀ i n, w'.Compiles text i n →
      FollowedBy w.session.cache.entries ⟨text, n⟩ (since text texts) →
      FollowedBy w'.session.cache.entries ⟨text, n⟩ (since text texts)) :
    w'.Once (texts ++ e.text?.toList) text := by
  rw [he, Option.toList_none, List.append_nil]
  refine ⟨fun i j n m hi hj => h.unique i j n m (hcalls i n hi) (hcalls j m hj),
    fun i n hi hroom => hentries i n hi (h.findable i n (hcalls i n hi) ?_)⟩
  rwa [hsize] at hroom

/-- Another text is looked up. -/
theorem Findable.concat_of_ne (h : w.Findable texts text n) (hne : other ≠ text)
    (hsize : w'.session.cache.maxSize = w.session.cache.maxSize)
    (hentries : InTime w.session.cache.maxSize text (texts ++ [other]) →
      FollowedBy w.session.cache.entries ⟨text, n⟩ (since text texts) →
      FollowedBy w'.session.cache.entries ⟨text, n⟩ (since text texts ++ [other])) :
    w'.Findable (texts ++ [other]) text n := by
  intro hroom
  rw [hsize] at hroom
  rw [since_concat_of_ne hne]
  exact hentries hroom (h fun m hm =>
    Nat.lt_of_le_of_lt (othersSince_le_concat hne texts) (hroom m hm))

/-- A text is found.  If a compilation of it runs, that is the one that is joined. -/
theorem Once.join (h : w.Once texts text) (hinv : w.Inv stops) {e : Entry}
    (he : e ∈ w.session.cache.entries)
    (hintime : e.text = text → ∀ j n, w.Compiles text j n →
      InTime w.session.cache.maxSize text texts)
    (hw' : w' = w.advance { w.session with cache := w.session.cache.touch e } i e.text
      (.waiting e.job)) :
    w'.Once (texts ++ [e.text]) text := by
  have hold : ∀ j n, w'.Compiles text j n → w.Compiles text j n := by
    intro j n hj
    rw [hw'] at hj
    exact (compiles_of_advance hj (by simp)).2
  refine ⟨fun j k n m hj hk => h.unique j k n m (hold j n hj) (hold k m hk), fun j n hj => ?_⟩
  by_cases hne : e.text = text
  · subst hne
    -- the entry of the running compilation is there, so it is the one that is found
    have hmem := (h.findable j n (hold j n hj) (hintime rfl j n (hold j n hj))).mem
    obtain rfl : n = e.job :=
      congrArg Entry.job (List.inj_on_of_nodup_map hinv.coherent.keys hmem he rfl)
    intro _
    rw [since_concat_self, hw']
    exact .latest _ _
  · rw [hw']
    refine (h.findable j n (hold j n hj)).concat_of_ne hne rfl fun _ hfollowed => ?_
    exact (hfollowed.erase fun heq => hne (congrArg Entry.text heq)).concat e

/-- A text is not found, and its compilation starts.  None of it was running. -/
theorem Once.start (h : w.Once texts text) (hinv : w.Inv stops)
    (hpos : ∀ m, w.session.cache.maxSize.room = some m → 1 ≤ m)
    (hmiss : w.session.cache.entries.find? (·.text = other) = none)
    (hintime : other = text → ∀ j n, w.Compiles text j n →
      InTime w.session.cache.maxSize text texts)
    (hw' : w' = w.advance (w.session.snocJob (w.session.cache.insert other) other) i other
      (.compiling (.shared w.session.cache.misses))) :
    w'.Once (texts ++ [other]) text := by
  have hkeys := hinv.coherent.keys_concat hmiss w.session.cache.misses
  have hcases : ∀ j n, w'.Compiles text j n →
      j = i ∧ other = text ∧ n = w.session.cache.misses ∨ w.Compiles text j n := by
    intro j n hj
    rw [hw'] at hj
    rcases eq_or_of_call_advance hj with ⟨rfl, hc⟩ | ⟨-, hold⟩
    · cases hc
      exact .inl ⟨rfl, rfl, rfl⟩
    · exact .inr hold
  by_cases hne : other = text
  · subst hne
    -- a running compilation would have been found
    have hnone : ∀ j n, ¬ w.Compiles other j n := by
      intro j n hj
      have hmem := (h.findable j n hj (hintime rfl j n hj)).mem
      exact Cache.find?_eq_none_iff.1 hmiss (List.mem_map_of_mem hmem)
    have hnew : ∀ j n, w'.Compiles other j n → j = i ∧ n = w.session.cache.misses := by
      intro j n hj
      rcases hcases j n hj with ⟨hji, -, hn⟩ | hold
      · exact ⟨hji, hn⟩
      · exact absurd hold (hnone j n)
    refine ⟨fun j k n m hj hk => (hnew j n hj).1.trans (hnew k m hk).1.symm, fun j n hj _ => ?_⟩
    rw [(hnew j n hj).2, since_concat_self, hw']
    exact (FollowedBy.latest _ _).evict hkeys hpos
  · have hold : ∀ j n, w'.Compiles text j n → w.Compiles text j n := by
      intro j n hj
      rcases hcases j n hj with ⟨-, heq, -⟩ | hold
      · exact absurd heq hne
      · exact hold
    refine ⟨fun j k n m hj hk => h.unique j k n m (hold j n hj) (hold k m hk), fun j n hj => ?_⟩
    rw [hw']
    refine (h.findable j n (hold j n hj)).concat_of_ne hne rfl fun hroom hfollowed => ?_
    refine (hfollowed.concat ⟨other, w.session.cache.misses⟩).evict hkeys fun m hm => ?_
    have hlt := hroom m hm
    rwa [othersSince, since_concat_of_ne hne] at hlt

/-- The invariant is preserved by every step of a call that does not look the text up too
late. -/
theorem Once.step (h : w.Once texts text) (hinv : w.Inv stops)
    (hpos : ∀ m, w.session.cache.maxSize.room = some m → 1 ≤ m) (hcall : e.isOfCall = true)
    (hintime : ∀ i, e = .seek i text → ∀ j n, w.Compiles text j n →
      InTime w.session.cache.maxSize text texts)
    (hstep : Step stops w e w') : w'.Once (texts ++ e.text?.toList) text := by
  cases hstep with
  | callOn other on =>
    exact h.of_quiet rfl (fun j n hj => compiles_of_concat hj (by simp)) rfl fun _ _ _ => id
  | callOff other off =>
    exact h.of_quiet rfl (fun j n hj => compiles_of_concat hj (by simp)) rfl fun _ _ _ => id
  | @join i _ other _ is_call found =>
    obtain ⟨e, he, rfl, rfl, rfl⟩ := exists_of_seek_eq_join found
    exact h.join hinv he (fun heq => hintime i (by rw [heq])) rfl
  | @start i _ other _ is_call found =>
    obtain ⟨hmiss, rfl, rfl⟩ := (seek_eq_start_iff hinv.coherent.size).1 found
    exact h.start hinv hpos hmiss (fun heq => hintime i (by rw [heq])) rfl
  | @release i m other f is_call =>
    have hold : ∀ j n, (w.advance (w.session.release other m) i other
        (.delivering m (.error f))).Compiles text j n → j ≠ i ∧ w.Compiles text j n :=
      fun j n hj => compiles_of_advance hj (by simp)
    refine h.of_quiet rfl (fun j n hj => (hold j n hj).2) rfl fun j n hj hfollowed => ?_
    obtain ⟨htext, -⟩ := hinv.fits _ _ _ is_call
    -- the compilation that failed is not the one that runs, because each has its own call
    have hne : n ≠ m := by
      rintro rfl
      have hworks : w.WorksOn j n := job?_eq (hold j n hj).2
      exact (hold j n hj).1
        ((hinv.owned.owner n (hinv.owned.pending j n hworks)).unique hworks (job?_eq is_call))
    rw [advance, hinv.coherent.entries_release htext]
    exact hfollowed.filter (decide_eq_true hne)
  | clear => cases hcall
  | setEnabled enabled => cases hcall
  | setMaxSize maxSize not_negative => cases hcall
  | _ =>
    exact h.of_quiet rfl (fun j n hj => (compiles_of_advance hj (by simp)).2) rfl fun _ _ _ => id

variable {cache : Cache}

theorem Steady.of_run (hnew : Cache.new? size true = .ok cache)
    (hrun : Run stops (ofCache cache) es w) (hcalls : ∀ e ∈ es, e.isOfCall = true) :
    w.Steady size := by
  induction hrun with
  | nil =>
    obtain ⟨-, rfl⟩ := Cache.new?_eq_ok_iff.1 hnew
    exact ⟨rfl, rfl, nofun⟩
  | snoc hrun hstep ih =>
    exact (ih fun e he => hcalls e (List.mem_append_left _ he)).step ((Inv.of_new? hnew).run hrun)
      (hcalls _ (List.mem_append_right _ (List.mem_singleton_self _))) hstep

theorem Once.of_run (hnew : Cache.new? size true = .ok cache)
    (hrun : Run stops (ofCache cache) es w) (hcalls : ∀ e ∈ es, e.isOfCall = true)
    (hnot : ¬ Overtaken stops (ofCache cache) text es) : w.Once (lookedUp es) text := by
  induction hrun with
  | nil => exact ⟨nofun, nofun⟩
  | snoc hrun hstep ih =>
    have hcalls' := fun e he => hcalls e (List.mem_append_left _ he)
    have hsteady := Steady.of_run hnew hrun hcalls'
    rw [lookedUp_concat]
    refine (ih hcalls' fun h => hnot (h.concat _)).step ((Inv.of_new? hnew).run hrun) ?_
      (hcalls _ (List.mem_append_right _ (List.mem_singleton_self _))) ?_ hstep
    · rw [hsteady.maxSize]
      exact fun m => Cache.Size.one_le_of_room_eq_some (Cache.new?_eq_ok_iff.1 hnew).1
    · rintro i rfl j n hj
      exact inTime_of_not_overtaken hrun hj hnot

/-- No text is overtaken in a cache that has room for all texts that are looked up. -/
theorem not_overtaken (hnew : Cache.new? size true = .ok cache)
    (hcalls : ∀ e ∈ es, e.isOfCall = true)
    (hroom : ∀ n, size.room = some n → (lookedUp es).dedup.length ≤ n) :
    ¬ Overtaken stops (ofCache cache) text es := by
  rintro ⟨es', i, w', j, k, ⟨es'', rfl⟩, hrun, -, hlate⟩
  have hsteady := Steady.of_run hnew hrun fun e he =>
    hcalls e (List.mem_append_left _ (List.mem_append_left _ he))
  rw [hsteady.maxSize] at hlate
  refine hlate fun n hn => Nat.lt_of_lt_of_le (othersSince_lt ?_ ?_) (hroom n hn)
  · exact List.mem_filterMap.2 ⟨.seek i text, by simp, rfl⟩
  · rw [List.append_assoc, lookedUp, lookedUp, List.filterMap_append]
    exact List.subset_append_left _ _

/-- **A text is compiled once at a time, unless it is overtaken.**  When only calls were made on a
cache that is on, no two of them compile a text that was not overtaken; and if one does, then
whoever looks the text up in time joins that compilation. -/
theorem once_of_not_overtaken (hnew : Cache.new? size true = .ok cache)
    (hrun : Run stops (ofCache cache) es w) (hcalls : ∀ e ∈ es, e.isOfCall = true)
    (hnot : ¬ Overtaken stops (ofCache cache) text es) :
    (∀ (i j : ℕ) k l, w.calls[i]? = some ⟨text, .compiling k⟩ →
      w.calls[j]? = some ⟨text, .compiling l⟩ → i = j) ∧
    ∀ (i : ℕ) k, w.calls[i]? = some ⟨text, .compiling k⟩ → InTime size text (lookedUp es) →
      ∃ n s, k = .shared n ∧ w.session.seek text = (.join n, s) := by
  have hinv : w.Inv stops := (Inv.of_new? hnew).run hrun
  have hsteady := Steady.of_run hnew hrun hcalls
  have honce := Once.of_run hnew hrun hcalls hnot
  constructor
  · intro i j k l hi hj
    obtain ⟨n, rfl⟩ := hsteady.shared i text k hi
    obtain ⟨m, rfl⟩ := hsteady.shared j text l hj
    exact honce.unique i j n m hi hj
  · intro i k hi hintime
    obtain ⟨n, rfl⟩ := hsteady.shared i text k hi
    rw [← hsteady.maxSize] at hintime
    have hmem := (honce.findable i n hi hintime).mem
    exact ⟨n, _, rfl, hinv.coherent.seek_of_mem hmem⟩

/-- A cache for two entries. -/
def forTwo : Cache := ⟨[], .whole 2, true, 0, 0⟩

/-- What the same look-ups lead to in a cache for two entries. -/
def undisplaced : SharedSession where
  session :=
    { cache := ⟨[⟨"2.x", 1⟩, ⟨"1.x", 0⟩], .whole 2, true, 1, 2⟩
      jobs := [⟨"1.x", none⟩, ⟨"2.x", none⟩] }
  calls :=
    [⟨"1.x", .compiling (.shared 0)⟩, ⟨"2.x", .compiling (.shared 1)⟩, ⟨"1.x", .waiting 0⟩]

theorem run_displacing_forTwo (stops : Compilation → Bool) :
    Run stops (ofCache forTwo) displacing undisplaced :=
  .snoc (.snoc (.snoc (.snoc (.snoc (.snoc .nil (.callOn "1.x" rfl)) (.start rfl rfl))
    (.callOn "2.x" rfl)) (.start rfl rfl)) (.callOn "1.x" rfl)) (.join rfl rfl)

/-- With room for both texts, the third call waits for the first, and so would a fourth. -/
theorem once_of_not_overtaken_forTwo :
    Cache.new? (.whole 2) true = .ok forTwo ∧
    Run (fun _ => false) (ofCache forTwo) displacing undisplaced ∧
    (∀ e ∈ displacing, e.isOfCall = true) ∧
    ¬ Overtaken (fun _ => false) (ofCache forTwo) "1.x" displacing ∧
    (∀ (i : ℕ) k, undisplaced.calls[i]? = some ⟨"1.x", .compiling k⟩ → i = 0) ∧
    ∃ s, undisplaced.session.seek "1.x" = (.join 0, s) := by
  have hnew : Cache.new? (.whole 2) true = .ok forTwo := rfl
  have hcalls : ∀ e ∈ displacing, e.isOfCall = true := by decide
  have hnot : ¬ Overtaken (fun _ => false) (ofCache forTwo) "1.x" displacing :=
    not_overtaken hnew hcalls fun n hn => by
      cases hn
      decide
  obtain ⟨hunique, hjoin⟩ := once_of_not_overtaken hnew (run_displacing_forTwo _) hcalls hnot
  refine ⟨hnew, run_displacing_forTwo _, hcalls, hnot, fun i k hi => hunique i 0 k _ hi rfl, ?_⟩
  obtain ⟨n, s, hn, hs⟩ := hjoin 0 (.shared 0) rfl fun n hn => by
    cases hn
    decide
  cases hn
  exact ⟨s, hs⟩

/-- **A text is compiled twice at a time** when it is looked up, then another one, and then the
first again, in a cache for one entry. -/
theorem compiled_twice :
    Cache.new? (.whole 1) true = .ok forOne ∧
    Run (fun _ => false) (ofCache forOne) displacing displaced ∧
    (∀ e ∈ displacing, e.isOfCall = true) ∧
    displaced.calls[0]? = some ⟨"1.x", .compiling (.shared 0)⟩ ∧
    displaced.calls[2]? = some ⟨"1.x", .compiling (.shared 2)⟩ :=
  ⟨rfl, run_displacing _, by decide, rfl, rfl⟩

end SharedSession

end SemverRange
