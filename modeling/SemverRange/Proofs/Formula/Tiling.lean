import Mathlib.Data.List.Chain
import SemverRange.Proofs.Formula.Cursor
import SemverRange.Proofs.Formula.Position

/-!
# The cells of a text in their places

The cells of a text stand one behind the other.  Together they cover the text, but for white space
that has no meaning, and behind them stands the cell for the end.  Which cell can stand behind which
is decided by what the scanner knows there: the token before, and whether white space was passed
over.  White space is a cell of its own between two targets only, and a prerelease or build part
is attached to what it belongs to.

## Main definitions

* `Tiles pos cs as` — the cells `as` cover the text `cs`, which begins at `pos`, but for white
  space.
* `Cell.Adjoins a b` — the cell `b` can stand behind the cell `a`.
* `MayFollow prev pos b` — the same, of the token `prev` that ends at `pos`.

## Main results

* `tiles_scanFrom` — the tokens that the scanner finds cover the text.
* `mayFollow_scanFrom` — the next cell can stand behind the token before.
* `Tokens.cells_inPlace` — **the cells of a text stand in their places.**
-/

namespace SemverRange

namespace Cell

/-- The place where the text of the cell ends. -/
def stop (a : Cell) : ℕ := a.pos + a.text.length

/-- The index is that of a character of the cell. -/
def Covers (a : Cell) (i : ℕ) : Prop := a.pos ≤ i ∧ i < a.stop

end Cell

/-! ### The cells cover the text -/

/-- The text, which begins at `pos`, consists of the texts of the cells with white space before
each of them; the last cell is that of the end. -/
inductive Tiles : ℕ → List Char → List Cell → Prop
  | stop {pos : ℕ} {b : List Char} (hb : Blank b) : Tiles pos b [⟨"EOF", [], pos + b.length⟩]
  | cell {pos : ℕ} {b : List Char} {l : Lexeme} {rest : List Char} {as : List Cell}
      (hb : Blank b) (hwf : l.Wellformed) (hne : l.text ≠ [])
      (h : Tiles (pos + b.length + l.text.length) rest as) :
    Tiles pos (b ++ (l.text ++ rest)) (Token.cell ⟨l, pos + b.length⟩ :: as)

namespace Tiles

variable {pos : ℕ} {b cs : List Char} {as : List Cell}

/-- More white space may stand before the text. -/
theorem blanks_append (hb : Blank b) (h : Tiles (pos + b.length) cs as) :
    Tiles pos (b ++ cs) as := by
  generalize hp : pos + b.length = p at h
  cases h with
  | stop hcs =>
    have hplace : p + cs.length = pos + (b ++ cs).length := by
      rw [List.length_append]
      omega
    rw [hplace]
    exact .stop (List.forall_mem_append.2 ⟨hb, hcs⟩)
  | @cell _ b' l rest as hb' hwf hne h =>
    have hplace : p + b'.length = pos + (b ++ b').length := by
      rw [List.length_append]
      omega
    rw [hplace] at h ⊢
    rw [← List.append_assoc]
    exact .cell (List.forall_mem_append.2 ⟨hb, hb'⟩) hwf hne h

theorem le_pos (h : Tiles pos cs as) : ∀ a ∈ as, pos ≤ a.pos := by
  induction h with
  | stop hb => simp
  | @cell pos b l rest as hb hwf hne _ ih =>
    refine List.forall_mem_cons.2 ⟨Nat.le_add_right _ _, fun a ha => ?_⟩
    have hle := ih a ha
    omega

/-- The cells stand one behind the other. -/
theorem pairwise (h : Tiles pos cs as) :
    as.Pairwise fun a a' => a.pos < a'.pos ∧ a.stop ≤ a'.pos := by
  induction h with
  | stop hb => exact List.pairwise_singleton _ _
  | @cell pos b l rest as hb hwf hne h ih =>
    refine List.pairwise_cons.2 ⟨fun a ha => ?_, ih⟩
    have hle := h.le_pos a ha
    have hpos := List.length_pos_iff.2 hne
    simp only [Cell.stop, Token.cell]
    omega

/-- A character that belongs to no cell is white space. -/
theorem isBlank_of_not_covers (h : Tiles pos cs as) {i : ℕ} {c : Char} (hc : cs[i]? = some c)
    (hout : ∀ a ∈ as, ¬a.Covers (pos + i)) : isBlank c = true := by
  induction h generalizing i with
  | stop hb => exact hb c (List.mem_of_getElem? hc)
  | @cell pos b l rest as hb hwf hne h ih =>
    by_cases hblank : i < b.length
    · rw [List.getElem?_append_left hblank] at hc
      exact hb c (List.mem_of_getElem? hc)
    obtain ⟨hcell, hrest⟩ := List.forall_mem_cons.1 hout
    -- the character is not one of the cell, so it stands behind it
    have hbehind : b.length + l.text.length ≤ i := by
      by_contra hlt
      refine hcell ⟨?_, ?_⟩ <;> simp only [Cell.stop, Token.cell] <;> omega
    rw [List.getElem?_append_right (by omega), List.getElem?_append_right (by omega)] at hc
    refine ih hc fun a ha => ?_
    have hplace : pos + b.length + l.text.length + (i - b.length - l.text.length) = pos + i := by
      omega
    rw [hplace]
    exact hrest a ha

end Tiles

/-! ### The scanner's steps -/

section Steps

variable {prev : Option Lexeme} {c : Char} {cs rest : List Char} {l : Lexeme} {pos : ℕ}

/-- Where no token starts the scanner stops. -/
theorem scanFrom_of_scan_eq_none (h : Lexeme.scan prev (c :: cs) = none) (pos : ℕ) :
    Token.scanFrom prev pos (c :: cs) = .error ⟨c, pos⟩ := by
  rw [Token.scanFrom]
  split
  · rfl
  · next hsome => rw [h] at hsome; cases hsome

/-- Behind a token that is kept the tokens of the rest are found. -/
theorem exists_scanFrom_of_keep {ts : List Token} (hscan : Lexeme.scan prev cs = some (l, rest))
    (hkeep : ¬Token.isDropped prev l rest = true) (h : Token.scanFrom prev pos cs = .ok ts) :
    ∃ ts', Token.scanFrom (some l) (pos + l.text.length) rest = .ok ts' ∧ ts = ⟨l, pos⟩ :: ts' := by
  rw [scanFrom_of_scan hscan, if_neg hkeep] at h
  cases hrest : Token.scanFrom (some l) (pos + l.text.length) rest with
  | error s =>
    rw [hrest] at h
    cases h
  | ok ts' =>
    rw [hrest] at h
    exact ⟨ts', rfl, (Except.ok.inj h).symm⟩

end Steps

/-- The token is white space. -/
theorem Lexeme.exists_of_isAnd {l : Lexeme} (h : l.isAnd = true) : ∃ b, l = .and b := by
  cases l with
  | and b => exact ⟨b, rfl⟩
  | _ => cases h

/-- **The tokens that the scanner finds cover the text**, but for the white space that it drops. -/
theorem tiles_scanFrom {prev : Option Lexeme} {pos : ℕ} {cs : List Char} {ts : List Token}
    (h : Token.scanFrom prev pos cs = .ok ts) :
    Tiles pos cs (ts.map Token.cell ++ [⟨"EOF", [], pos + cs.length⟩]) := by
  -- along the scanner's own recursion
  induction prev, pos, cs using Token.scanFrom.induct generalizing ts with
  | case1 prev pos =>
    rw [Token.scanFrom] at h
    cases h
    exact .stop (List.forall_mem_nil _)
  | case2 prev pos c cs hnone =>
    rw [scanFrom_of_scan_eq_none hnone] at h
    cases h
  | case3 prev pos c cs l rest hscan hdrop ih =>
    rw [scanFrom_of_scan hscan, if_pos hdrop] at h
    obtain ⟨hcs, hwf, -⟩ := Lexeme.scan_eq_some_iff.1 hscan
    obtain ⟨b, rfl⟩ := Lexeme.exists_of_isAnd (Bool.and_eq_true_iff.1 hdrop).1
    rw [hcs, List.length_append, ← Nat.add_assoc]
    exact (ih h).blanks_append hwf.2
  | case4 prev pos c cs l rest hscan hkeep ih =>
    obtain ⟨ts', hrest, rfl⟩ := exists_scanFrom_of_keep hscan hkeep h
    obtain ⟨hcs, hwf, -⟩ := Lexeme.scan_eq_some_iff.1 hscan
    rw [hcs, List.length_append, ← Nat.add_assoc]
    exact .cell (b := []) (List.forall_mem_nil _) hwf (Lexeme.text_scan hscan).1 (ih hrest)

/-! ### Which cell can stand behind which -/

/-- The cell `b` can stand behind the cell `a`. -/
structure Cell.Adjoins (a b : Cell) : Prop where
  /-- White space stands behind neither a sign nor a bar, a dash or white space. -/
  and_right : b.kind = "AND" → a.kind ∉ ["OP", "SPEC", "OR", "DASH", "AND"]
  /-- Behind white space there is neither a bar, a dash nor white space, and not the end. -/
  and_left : a.kind = "AND" → b.kind ∉ ["AND", "OR", "DASH", "EOF"]
  /-- A prerelease part begins where a number ends. -/
  prerelease : b.kind = "PRE" → a.kind = "NUM" ∧ a.stop = b.pos
  /-- A build part begins where a number or a prerelease part ends. -/
  build : b.kind = "BUILD" → (a.kind = "NUM" ∨ a.kind = "PRE") ∧ a.stop = b.pos

/-- The cell `b` can stand behind the token `prev`, which ends at `pos`; there may be none. -/
structure MayFollow (prev : Option Lexeme) (pos : ℕ) (b : Cell) : Prop where
  /-- White space does not come first, nor behind what takes it up. -/
  and_right : b.kind = "AND" → ∃ l ∈ prev, l.kind ∉ ["OP", "SPEC", "OR", "DASH", "AND"]
  /-- White space ends before a character that makes it neither longer nor something else. -/
  and_left : ∀ l ∈ prev, l.kind = "AND" → b.kind ∉ ["AND", "OR", "DASH", "EOF"]
  /-- A prerelease part begins where a number ends. -/
  prerelease : b.kind = "PRE" → (∃ l ∈ prev, l.kind = "NUM") ∧ pos = b.pos
  /-- A build part begins where a number or a prerelease part ends. -/
  build : b.kind = "BUILD" → (∃ l ∈ prev, l.kind = "NUM" ∨ l.kind = "PRE") ∧ pos = b.pos

theorem MayFollow.adjoins {l : Lexeme} {pos : ℕ} {b : Cell}
    (h : MayFollow (some l) (pos + l.text.length) b) : (Token.cell ⟨l, pos⟩).Adjoins b := by
  refine ⟨fun hb => ?_, h.and_left l rfl, fun hb => ?_, fun hb => ?_⟩
  · obtain ⟨_, ⟨⟩, hl⟩ := h.and_right hb
    exact hl
  · obtain ⟨⟨_, ⟨⟩, hl⟩, hpos⟩ := h.prerelease hb
    exact ⟨hl, hpos⟩
  · obtain ⟨⟨_, ⟨⟩, hl⟩, hpos⟩ := h.build hb
    exact ⟨hl, hpos⟩

/-- If the token before is white space, the text behind it is not empty and not part of it.  Where
white space ends does not depend on what stands before it. -/
def Resumes (prev : Option Lexeme) (cs : List Char) : Prop :=
  ∀ b, prev = some (.and b) → cs ≠ [] ∧ Lexeme.Fits none (.and b) cs

theorem resumes_none (cs : List Char) : Resumes none cs := nofun

section Step

variable {prev : Option Lexeme} {cs rest : List Char} {l : Lexeme}

theorem Lexeme.exists_of_kind_and (h : l.kind = "AND") : ∃ b, l = .and b := by
  cases l with
  | and b => exact ⟨b, rfl⟩
  | _ => simp [kind] at h

/-- Behind white space that ends there the scanner finds no bar, no dash and no white space. -/
theorem kind_of_scan_of_fits_and {b : List Char} (hfits : Lexeme.Fits none (.and b) cs)
    (hscan : Lexeme.scan prev cs = some (l, rest)) : l.kind ∉ ["AND", "OR", "DASH"] := by
  obtain ⟨hstops, hbars, -⟩ := hfits
  obtain ⟨rfl, hwf, -⟩ := Lexeme.scan_eq_some_iff.1 hscan
  -- none of the three can begin with white space here
  have hnil : ∀ {x y : List Char}, l.text = x ++ y → Blank x → x = [] := by
    intro x y htext hx
    cases x with
    | nil => rfl
    | cons c x =>
      rw [htext] at hstops
      have hc : isBlank c = false := stops_cons.1 hstops
      rw [hx c List.mem_cons_self] at hc
      cases hc
  cases l with
  | or cs =>
    obtain ⟨x, y, rfl, hx, -⟩ := hwf
    obtain rfl := hnil rfl hx
    exact absurd rfl (hbars _)
  | and cs => exact absurd (hnil (List.append_nil cs).symm hwf.2) hwf.1
  | dash cs =>
    obtain ⟨x, y, rfl, hx, -⟩ := hwf
    exact absurd (hnil rfl hx.2) hx.1
  | _ => simp [Lexeme.kind]

/-- White space that is dropped does not stand behind white space. -/
theorem Resumes.of_drop (h : Resumes prev cs) (hscan : Lexeme.scan prev cs = some (l, rest))
    (hand : l.isAnd = true) : Resumes prev rest := by
  intro b hprev
  obtain ⟨b', rfl⟩ := Lexeme.exists_of_isAnd hand
  exact absurd (by simp [Lexeme.kind]) (kind_of_scan_of_fits_and (h b hprev).2 hscan)

/-- White space that is kept has something behind it. -/
theorem Resumes.of_keep (hscan : Lexeme.scan prev cs = some (l, rest))
    (hkeep : ¬Token.isDropped prev l rest = true) : Resumes (some l) rest := by
  have hfits := Lexeme.fits_scan hscan
  rintro b ⟨⟩
  refine ⟨?_, hfits⟩
  rintro rfl
  exact hkeep (by simp [Token.isDropped, Lexeme.isAnd])

/-- **A token that is kept can stand behind the token before.** -/
theorem mayFollow_of_scan (h : Resumes prev cs) (hscan : Lexeme.scan prev cs = some (l, rest))
    (hkeep : ¬Token.isDropped prev l rest = true) (pos : ℕ) :
    MayFollow prev pos (Token.cell ⟨l, pos⟩) := by
  have hfits := Lexeme.fits_scan hscan
  refine ⟨fun hand => ?_, fun p hp hand => ?_, fun hpre => ?_, fun hbuild => ?_⟩
  · obtain ⟨b, rfl⟩ := Lexeme.exists_of_kind_and hand
    simp only [Token.isDropped, Lexeme.isAnd, Bool.true_and, Bool.or_eq_true, not_or] at hkeep
    cases prev with
    | none => exact absurd rfl hkeep.1
    | some p =>
      refine ⟨p, rfl, ?_⟩
      cases p with
      | and b' => exact absurd (by simp [Lexeme.kind]) (kind_of_scan_of_fits_and (h b' rfl).2 hscan)
      | or | dash | op | shorthand => exact absurd rfl hkeep.1
      | _ => simp [Lexeme.kind]
  · obtain ⟨b, rfl⟩ := Lexeme.exists_of_kind_and hand
    have hkind := kind_of_scan_of_fits_and (h b hp).2 hscan
    simp only [List.mem_cons, List.not_mem_nil, or_false, not_or] at hkind ⊢
    exact ⟨hkind.1, hkind.2.1, hkind.2.2, Cursor.kind_ne_eof l⟩
  · refine ⟨?_, rfl⟩
    cases l with
    | prerelease ids =>
      obtain ⟨⟨ds, rfl⟩, -⟩ := hfits
      exact ⟨_, rfl, rfl⟩
    | _ => simp [Token.cell, Lexeme.kind] at hpre
  · refine ⟨?_, rfl⟩
    cases l with
    | build ids =>
      obtain ⟨⟨ds, rfl⟩ | ⟨is, rfl⟩, -⟩ := hfits
      · exact ⟨_, rfl, .inl rfl⟩
      · exact ⟨_, rfl, .inr rfl⟩
    | _ => simp [Token.cell, Lexeme.kind] at hbuild

/-- What can stand behind white space that is dropped can stand where this begins: what takes up
white space has nothing attached to it. -/
theorem MayFollow.of_drop {pos pos' : ℕ} {b : Cell} (h : MayFollow prev pos' b)
    (hprev : prev.all Lexeme.absorbsBlanks = true) : MayFollow prev pos b := by
  have habsorbs : ∀ p ∈ prev, p.absorbsBlanks = true := by
    rintro p ⟨⟩
    exact hprev
  refine ⟨h.and_right, h.and_left, fun hb => ?_, fun hb => ?_⟩
  · obtain ⟨⟨p, hp, hkind⟩, -⟩ := h.prerelease hb
    have hp := habsorbs p hp
    cases p <;> simp_all [Lexeme.kind, Lexeme.absorbsBlanks]
  · obtain ⟨⟨p, hp, hkind⟩, -⟩ := h.build hb
    have hp := habsorbs p hp
    cases p <;> simp_all [Lexeme.kind, Lexeme.absorbsBlanks]

/-- The end can stand behind any token but white space. -/
theorem mayFollow_end (h : Resumes prev []) (pos stop : ℕ) :
    MayFollow prev pos ⟨"EOF", [], stop⟩ := by
  refine ⟨by simp, fun p hp hand => ?_, by simp, by simp⟩
  obtain ⟨b, rfl⟩ := Lexeme.exists_of_kind_and hand
  exact absurd rfl (h b hp).1

end Step

section Run

variable {prev : Option Lexeme} {pos : ℕ} {cs : List Char} {ts : List Token}

/-- **The next cell can stand behind the token before**, with dropped white space between them. -/
theorem mayFollow_scanFrom (h : Token.scanFrom prev pos cs = .ok ts) (hcs : Resumes prev cs)
    (stop : ℕ) :
    ∀ b ∈ (ts.map Token.cell ++ [(⟨"EOF", [], stop⟩ : Cell)]).head?, MayFollow prev pos b := by
  -- along the scanner's own recursion, until a token is kept
  induction prev, pos, cs using Token.scanFrom.induct generalizing ts with
  | case1 prev pos =>
    rw [Token.scanFrom] at h
    cases h
    rintro b ⟨⟩
    exact mayFollow_end hcs pos stop
  | case2 prev pos c cs hnone =>
    rw [scanFrom_of_scan_eq_none hnone] at h
    cases h
  | case3 prev pos c cs l rest hscan hdrop ih =>
    rw [scanFrom_of_scan hscan, if_pos hdrop] at h
    obtain ⟨hand, hdropped⟩ := Bool.and_eq_true_iff.1 hdrop
    have hrest := hcs.of_drop hscan hand
    rcases Bool.or_eq_true_iff.1 hdropped with hprev | hempty
    · exact fun b hb => (ih h hrest b hb).of_drop hprev
    · obtain rfl := List.isEmpty_iff.1 hempty
      rw [Token.scanFrom] at h
      cases h
      rintro b ⟨⟩
      exact mayFollow_end hrest pos stop
  | case4 prev pos c cs l rest hscan hkeep ih =>
    obtain ⟨ts', -, rfl⟩ := exists_scanFrom_of_keep hscan hkeep h
    rintro b ⟨⟩
    exact mayFollow_of_scan hcs hscan hkeep pos

/-- Each cell can stand behind the one before. -/
theorem isChain_scanFrom (h : Token.scanFrom prev pos cs = .ok ts) (hcs : Resumes prev cs)
    (stop : ℕ) : (ts.map Token.cell ++ [(⟨"EOF", [], stop⟩ : Cell)]).IsChain Cell.Adjoins := by
  induction prev, pos, cs using Token.scanFrom.induct generalizing ts with
  | case1 prev pos =>
    rw [Token.scanFrom] at h
    cases h
    exact List.isChain_singleton _
  | case2 prev pos c cs hnone =>
    rw [scanFrom_of_scan_eq_none hnone] at h
    cases h
  | case3 prev pos c cs l rest hscan hdrop ih =>
    rw [scanFrom_of_scan hscan, if_pos hdrop] at h
    exact ih h (hcs.of_drop hscan (Bool.and_eq_true_iff.1 hdrop).1)
  | case4 prev pos c cs l rest hscan hkeep ih =>
    obtain ⟨ts', hrest, rfl⟩ := exists_scanFrom_of_keep hscan hkeep h
    have hnext : Resumes (some l) rest := .of_keep hscan hkeep
    refine List.isChain_cons.2 ⟨fun b hb => ?_, ih hrest hnext⟩
    exact (mayFollow_scanFrom hrest hnext stop b hb).adjoins

end Run

/-! ### Whole texts -/

theorem scanFrom_of_tokenize {source : String} {ts : Tokens} (h : tokenize source = .ok ts) :
    Token.scanFrom none 0 source.toList = .ok ts.toList ∧ ts.stop = source.length := by
  unfold tokenize at h
  split at h
  · next hts =>
    cases h
    exact ⟨hts, rfl⟩
  · cases h

/-- The cells of a text cover it, but for white space. -/
theorem tiles_of_tokenize {source : String} {ts : Tokens} (h : tokenize source = .ok ts) :
    Tiles 0 source.toList ts.cells := by
  obtain ⟨hscan, hstop⟩ := scanFrom_of_tokenize h
  have htiles := tiles_scanFrom hscan
  rwa [Nat.zero_add, String.length_toList, ← hstop] at htiles

/-- **The cells of a text stand in their places.**  The last one is that of the end and stands where
the text ends.  All others are not empty, and their texts stand at their positions; each cell stands
behind the ones before it, and what belongs to none of them is white space.  What can stand
behind what is told by `Cell.Adjoins`, and what comes first is neither white space nor attached to
anything. -/
theorem Tokens.cells_inPlace {source : String} {ts : Tokens} (h : tokenize source = .ok ts) :
    (∃ before, ts.cells = before ++ [⟨"EOF", [], source.length⟩] ∧
      ∀ a ∈ before, a.kind ≠ "EOF" ∧ a.text ≠ [] ∧
        (source.toList.drop a.pos).take a.text.length = a.text) ∧
    ts.cells.Pairwise (fun a b => a.pos < b.pos ∧ a.stop ≤ b.pos) ∧
    (∀ (i : ℕ) (c : Char), source.toList[i]? = some c → (∀ a ∈ ts.cells, ¬a.Covers i) →
      isBlank c = true) ∧
    ts.cells.IsChain Cell.Adjoins ∧
    ∀ a ∈ ts.cells.head?, a.kind ∉ ["AND", "PRE", "BUILD"] := by
  obtain ⟨hscan, hstop⟩ := scanFrom_of_tokenize h
  have htiles := tiles_of_tokenize h
  refine ⟨⟨ts.toList.map Token.cell, ?_, fun a ha => ?_⟩, htiles.pairwise, fun i c hc hout => ?_,
    isChain_scanFrom hscan (resumes_none _) ts.stop, fun a ha => ?_⟩
  · rw [Tokens.cells, Tokens.endCell, hstop]
  · obtain ⟨t, ht, rfl⟩ := List.mem_map.1 ha
    have hstands := standsIn_of_tokenize h t ht
    have htake := List.prefix_iff_eq_take.1 hstands.isPrefix
    exact ⟨Cursor.kind_ne_eof t.lexeme, hstands.text_ne_nil, htake.symm⟩
  · refine htiles.isBlank_of_not_covers hc fun a ha => ?_
    rw [Nat.zero_add]
    exact hout a ha
  · have hfirst := mayFollow_scanFrom hscan (resumes_none _) ts.stop a ha
    simp only [List.mem_cons, List.not_mem_nil, or_false, not_or]
    refine ⟨fun hand => ?_, fun hpre => ?_, fun hbuild => ?_⟩
    · obtain ⟨_, ⟨⟩, -⟩ := hfirst.and_right hand
    · obtain ⟨⟨_, ⟨⟩, -⟩, -⟩ := hfirst.prerelease hpre
    · obtain ⟨⟨_, ⟨⟩, -⟩, -⟩ := hfirst.build hbuild

/-- White space of all three sorts: dropped at the start, behind a sign and at the end, of its own
between two targets, and part of the bars. -/
theorem Tokens.cells_inPlace_spaced :
    let source := " v1-rc+b  > 2 || ~* "
    let ts : Tokens := ⟨[⟨.v 'v', 1⟩, ⟨.num ['1'], 2⟩, ⟨.prerelease [['r', 'c']], 3⟩,
      ⟨.build [['b']], 6⟩, ⟨.and [' ', ' '], 8⟩, ⟨.op .gt, 10⟩, ⟨.num ['2'], 12⟩,
      ⟨.or [' ', '|', '|', ' '], 13⟩, ⟨.shorthand .tilde, 17⟩, ⟨.wildcard '*', 18⟩], 20⟩
    tokenize source = .ok ts ∧
      ts.cells.Pairwise (fun a b => a.pos < b.pos ∧ a.stop ≤ b.pos) ∧
      ts.cells.IsChain Cell.Adjoins := by
  intro source ts
  have h : tokenize source = .ok ts := by decide +kernel
  obtain ⟨-, hpairwise, -, hchain, -⟩ := Tokens.cells_inPlace h
  exact ⟨h, hpairwise, hchain⟩

end SemverRange
