import Mathlib.Data.Finset.Card
import Mathlib.Logic.Relation
import SemverRange.Proofs.Settings.Yaml.Reading
import SemverRange.Proofs.Settings.Yaml.Scalars
import SemverRange.Settings.Yaml.Graph

/-!
# What a YAML text asks for in vain

Once its nodes are read, a text has a document unless one of its nodes has no value.  Mappings take
over the entries of others before their own are looked at; this moves entries, but brings in no text
and no kind that was not there, but for keys that become texts.  So whatever has no value can be
found among the nodes as they were read.

## Main definitions

* `Yaml.Graph.Inherits` — the mapping has the entry, or takes it over.
* `Yaml.Graph.StandsFor` — the mapping stands for another node.
* `Yaml.Graph.Becomes` — a graph in which entries have been taken over.
* `Yaml.Graph.Asks`, `Yaml.Asks` — what a graph, or a text, asks for in vain.

## Main results

* `Yaml.becomes_flatten` — taking over entries.
* `Yaml.exists_circle_of_path` — a way that is longer than the graph is large leads in a circle.
* `Yaml.asks_of_parse` — **a text without a document asks for something in vain.**
-/

namespace SemverRange

namespace Yaml

open Relation (ReflTransGen TransGen)

namespace Graph

/-- The node is the mapping whose entries are taken over, or a list with that mapping in it. -/
def Offers (g : Graph) (v m : ℕ) : Prop :=
  v = m ∨ ∃ tag items, g.node v = .sequence tag items ∧ m ∈ items

/-- The mapping takes over the entries of another one. -/
def MergesFrom (g : Graph) (i m : ℕ) : Prop :=
  ∃ k v, (k, v) ∈ (g.node i).entries ∧ (g.node k).tag = .merge ∧ g.Offers v m

/-- The entry is one of the mapping, or of one whose entries it takes over. -/
def Inherits (g : Graph) (i : ℕ) (e : ℕ × ℕ) : Prop :=
  ∃ m, ReflTransGen g.MergesFrom i m ∧ e ∈ (g.node m).entries

/-- The mapping stands for the node under its key for a value. -/
def StandsFor (g : Graph) (i j : ℕ) : Prop :=
  ∃ k, g.Inherits i (k, j) ∧ (g.node k).tag = .value

/-- The node has the text, or stands for one that has it. -/
def HasText (g : Graph) (i : ℕ) (text : List ℕ) : Prop :=
  ∃ j tag, ReflTransGen g.StandsFor i j ∧ g.node j = .scalar tag text

/-- What the graph asks for in vain. -/
inductive Asks (g : Graph) : Fault → Prop
  /-- Something has no meaning at all. -/
  | malformed : Asks g .malformed
  /-- A node has a text that has no value of its kind. -/
  | senseless {i : ℕ} {text : List ℕ} {f : Fault} (htext : g.HasText i text)
      (h : Senseless text (g.node i).tag f) : Asks g f
  /-- A mapping is asked to be a date. -/
  | noDateOfMapping {i : ℕ} (hmapping : (g.node i).isMapping = true)
      (htag : (g.node i).tag = .timestamp) : Asks g .noDateOfMapping
  /-- A mapping stands for itself, by way of others or at once. -/
  | endless {i : ℕ} (h : TransGen g.StandsFor i i) : Asks g .endless

end Graph

/-- The node as an ordinary text, without entries. -/
def Node.shape (n : Node) : Node := n.asText.withEntries []

@[simp]
theorem Node.shape_withEntries (n : Node) (es : List (ℕ × ℕ)) :
    (n.withEntries es).shape = n.shape := by
  cases n <;> rfl

@[simp]
theorem Node.shape_asText (n : Node) : n.asText.shape = n.shape := by
  cases n <;> rfl

theorem Node.isMapping_shape (n : Node) : n.shape.isMapping = n.isMapping := by
  cases n <;> rfl

@[simp]
theorem Node.tag_withEntries (n : Node) (es : List (ℕ × ℕ)) : (n.withEntries es).tag = n.tag := by
  cases n <;> rfl

@[simp]
theorem Node.tag_asText (n : Node) : n.asText.tag = .text := by
  cases n <;> rfl

@[simp]
theorem Node.entries_asText (n : Node) : n.asText.entries = n.entries := by
  cases n <;> rfl

theorem Node.mem_entries_withEntries {n : Node} {es : List (ℕ × ℕ)} {e : ℕ × ℕ}
    (h : e ∈ (n.withEntries es).entries) : e ∈ es := by
  cases n with
  | mapping tag es' => exact h
  | _ => exact absurd h List.not_mem_nil

namespace Graph

variable {g g' g'' : Graph} {i j m : ℕ} {e : ℕ × ℕ} {text : List ℕ} {f : Fault}

/-- Entries have been taken over, and keys have become texts. -/
structure Becomes (g g' : Graph) : Prop where
  size_eq : g'.size = g.size
  shape_eq (i : ℕ) : (g'.node i).shape = (g.node i).shape
  tag_eq (i : ℕ) : (g'.node i).tag = (g.node i).tag ∨ (g'.node i).tag = .text
  inherits {i : ℕ} {e : ℕ × ℕ} : e ∈ (g'.node i).entries → g.Inherits i e

theorem inherits_of_mem (h : e ∈ (g.node i).entries) : g.Inherits i e := ⟨i, .refl, h⟩

namespace Becomes

theorem refl (g : Graph) : g.Becomes g := ⟨rfl, fun _ => rfl, fun _ => .inl rfl, inherits_of_mem⟩

variable (h : g.Becomes g')
include h

/-- A kind other than that of texts was there before. -/
theorem tag_eq_of_ne {t : Tag} (ht : (g'.node i).tag = t) (hne : t ≠ .text) : (g.node i).tag = t :=
  (h.tag_eq i).elim (·.symm.trans ht) fun htext => absurd (ht.symm.trans htext) hne

theorem scalar {tag : Tag} (hi : g'.node i = .scalar tag text) :
    ∃ tag', g.node i = .scalar tag' text := by
  have hshape := h.shape_eq i
  rw [hi] at hshape
  cases hn : g.node i with
  | scalar tag' text' =>
    rw [hn] at hshape
    obtain ⟨-, rfl⟩ := Node.scalar.inj hshape
    exact ⟨tag', rfl⟩
  | _ =>
    rw [hn] at hshape
    cases hshape

theorem sequence {tag : Tag} {items : List ℕ} (hi : g'.node i = .sequence tag items) :
    ∃ tag', g.node i = .sequence tag' items := by
  have hshape := h.shape_eq i
  rw [hi] at hshape
  cases hn : g.node i with
  | sequence tag' items' =>
    rw [hn] at hshape
    obtain ⟨-, rfl⟩ := Node.sequence.inj hshape
    exact ⟨tag', rfl⟩
  | _ =>
    rw [hn] at hshape
    cases hshape

theorem isMapping_eq (i : ℕ) : (g'.node i).isMapping = (g.node i).isMapping := by
  rw [← Node.isMapping_shape, h.shape_eq, Node.isMapping_shape]

theorem offers (hv : g'.Offers i m) : g.Offers i m := by
  refine hv.imp_right fun hlist => ?_
  obtain ⟨tag, items, hitems, hm⟩ := hlist
  obtain ⟨tag', hi⟩ := h.sequence hitems
  exact ⟨tag', items, hi, hm⟩

theorem mergesFrom (hm : g'.MergesFrom i m) : ReflTransGen g.MergesFrom i m := by
  obtain ⟨k, v, hmem, htag, hv⟩ := hm
  obtain ⟨j, hij, hj⟩ := h.inherits hmem
  exact hij.tail ⟨k, v, hj, h.tag_eq_of_ne htag (by decide), h.offers hv⟩

/-- What is inherited once entries have been taken over was so before. -/
theorem inherits' (he : g'.Inherits i e) : g.Inherits i e := by
  obtain ⟨m, him, hm⟩ := he
  obtain ⟨m', hm', he⟩ := h.inherits hm
  exact ⟨m', (him.lift' id fun _ _ => h.mergesFrom).trans hm', he⟩

theorem trans (h' : g'.Becomes g'') : g.Becomes g'' where
  size_eq := h'.size_eq.trans h.size_eq
  shape_eq i := (h'.shape_eq i).trans (h.shape_eq i)
  tag_eq i := by
    rcases h'.tag_eq i with htag | htag
    · rw [htag]
      exact h.tag_eq i
    · exact .inr htag
  inherits he := h.inherits' (h'.inherits he)

end Becomes

/-! ### Taking over entries -/

/-- Only the node with the number changes. -/
theorem node_modify (g : Graph) (i : ℕ) (f : Node → Node) (j : ℕ) :
    Graph.node (g.modify i f) j = g.node j ∨
      i = j ∧ Graph.node (g.modify i f) j = f (g.node j) := by
  rw [node, node, Array.getElem?_modify]
  split
  · next hij =>
    cases hj : g[j]? with
    | none => exact .inl rfl
    | some n => exact .inr ⟨hij, rfl⟩
  · exact .inl rfl

/-- A node changes in what may change. -/
theorem Becomes.modify (h : g.Becomes g') {f : Node → Node} (hshape : ∀ n, (f n).shape = n.shape)
    (htag : ∀ n, (f n).tag = n.tag ∨ (f n).tag = .text)
    (hentries : ∀ e ∈ (f (g'.node i)).entries, g.Inherits i e) : g.Becomes (g'.modify i f) where
  size_eq := Array.size_modify.trans h.size_eq
  shape_eq j := by
    rw [← h.shape_eq]
    rcases g'.node_modify i f j with hj | ⟨-, hj⟩
    · rw [hj]
    · rw [hj, hshape]
  tag_eq j := by
    rcases g'.node_modify i f j with hj | ⟨-, hj⟩
    · rw [hj]
      exact h.tag_eq j
    · rw [hj]
      rcases htag (g'.node j) with heq | htext
      · rw [heq]
        exact h.tag_eq j
      · exact .inr htext
  inherits {j e} he := by
    rcases g'.node_modify i f j with hj | ⟨rfl, hj⟩
    · rw [hj] at he
      exact h.inherits he
    · rw [hj] at he
      exact hentries e he

/-- A mapping gets entries that it had or takes over. -/
theorem Becomes.withEntries (h : g.Becomes g') (es : Node → List (ℕ × ℕ))
    (hes : ∀ e ∈ es (g'.node i), g.Inherits i e) :
    g.Becomes (g'.modify i fun n => n.withEntries (es n)) :=
  h.modify (fun n => n.shape_withEntries _) (fun n => .inl (n.tag_withEntries _)) fun e he =>
    hes e (Node.mem_entries_withEntries he)

/-- A node becomes an ordinary text. -/
theorem becomes_asText (g : Graph) (i : ℕ) : g.Becomes (g.modify i Node.asText) :=
  (Becomes.refl g).modify Node.shape_asText (fun n => .inr n.tag_asText) fun e he => by
    rw [Node.entries_asText] at he
    exact inherits_of_mem he

/-- An entry is taken over from a mapping that the node offers. -/
def TakesFrom (g : Graph) (v : ℕ) (e : ℕ × ℕ) : Prop := ∃ m, g.Offers v m ∧ g.Inherits m e

theorem Becomes.takesFrom (h : g.Becomes g') {v : ℕ} (he : g'.TakesFrom v e) : g.TakesFrom v e := by
  obtain ⟨m, hv, hm⟩ := he
  exact ⟨m, h.offers hv, h.inherits' hm⟩

/-- What a merging entry brings in is inherited. -/
theorem TakesFrom.inherits {k v : ℕ} (hkv : (k, v) ∈ (g.node i).entries)
    (hk : (g.node k).tag = .merge) (h : g.TakesFrom v e) : g.Inherits i e := by
  obtain ⟨m, hv, m', hm, he⟩ := h
  exact ⟨m', .head ⟨k, v, hkv, hk, hv⟩ hm, he⟩

end Graph

/-- What taking over entries does to a graph, with so much fuel. -/
structure Flattening (fuel : ℕ) : Prop where
  flatten (i : ℕ) (g : Graph) : EndsIn g.Becomes (· = .malformed) (flatten fuel i g)
  flattenFrom (rounds i place : ℕ) (g : Graph) :
    EndsIn (fun x => g.Becomes x.1 ∧ ∀ e ∈ x.2, g.Inherits i e) (· = .malformed)
      (flattenFrom fuel rounds i place g)
  mergedFrom (v : ℕ) (g : Graph) :
    EndsIn (fun x => g.Becomes x.1 ∧ ∀ e ∈ x.2, g.TakesFrom v e) (· = .malformed)
      (mergedFrom fuel v g)
  mergedFromAll (vs : List ℕ) (g : Graph) :
    EndsIn (fun x => g.Becomes x.1 ∧ ∀ es ∈ x.2, ∀ e ∈ es, ∃ m ∈ vs, g.Inherits m e)
      (· = .malformed) (mergedFromAll fuel vs g)

namespace Flattening

variable {fuel : ℕ} {g : Graph}

theorem zero : Flattening 0 where
  flatten i g := by
    unfold Yaml.flatten
    exact Graph.Becomes.refl g
  flattenFrom rounds i place g := by
    unfold Yaml.flattenFrom
    exact ⟨.refl g, fun _ => nofun⟩
  mergedFrom v g := by
    unfold Yaml.mergedFrom
    exact ⟨.refl g, fun _ => nofun⟩
  mergedFromAll vs g := by
    unfold Yaml.mergedFromAll
    exact ⟨.refl g, fun _ => nofun⟩

variable (h : Flattening fuel)
include h

theorem flatten_succ (i : ℕ) (g : Graph) :
    EndsIn g.Becomes (· = .malformed) (Yaml.flatten (fuel + 1) i g) := by
  unfold Yaml.flatten
  refine (h.flattenFrom _ i 0 g).bind fun x hx => ?_
  obtain ⟨hg', hmerged⟩ := hx
  dsimp only
  split
  · exact hg'
  · exact hg'.withEntries (fun n => x.2 ++ n.entries) fun e he =>
      (List.mem_append.1 he).elim (hmerged e) hg'.inherits

/-- The entries from one on are looked at, of which one may take over others. -/
theorem flattenFrom_succ (rounds i place : ℕ) (g : Graph) :
    EndsIn (fun x => g.Becomes x.1 ∧ ∀ e ∈ x.2, g.Inherits i e) (· = .malformed)
      (Yaml.flattenFrom (fuel + 1) rounds i place g) := by
  have hlater {g' : Graph} (hg' : g.Becomes g') (place : ℕ) :
      EndsIn (fun x => g.Becomes x.1 ∧ ∀ e ∈ x.2, g.Inherits i e) (· = .malformed)
        (Yaml.flattenFrom fuel (rounds - 1) i place g') :=
    (h.flattenFrom _ i place g').mono
      (fun _ hx => ⟨hg'.trans hx.1, fun e he => hg'.inherits' (hx.2 e he)⟩) fun _ => id
  cases rounds with
  | zero =>
    unfold Yaml.flattenFrom
    exact ⟨.refl g, fun _ => nofun⟩
  | succ rounds =>
    unfold Yaml.flattenFrom
    split
    · exact ⟨.refl g, fun _ => nofun⟩
    · next k v hplace =>
      have hkv : (k, v) ∈ (g.node i).entries := List.mem_of_getElem? hplace
      split
      · next hmerge =>
        -- the entry itself goes, and what it takes over comes in addition
        let g₁ : Graph := g.modify i fun n => n.withEntries (n.entries.eraseIdx place)
        have hg₁ : g.Becomes g₁ := (Graph.Becomes.refl g).withEntries
          (fun n => n.entries.eraseIdx place) fun e he =>
            Graph.inherits_of_mem (List.mem_of_mem_eraseIdx he)
        refine (h.mergedFrom v g₁).bind fun first hfirst => ?_
        refine (hlater (hg₁.trans hfirst.1) place).bind fun others hothers => ?_
        refine ⟨hothers.1, fun e he => (List.mem_append.1 he).elim (fun he => ?_) (hothers.2 e)⟩
        exact (hg₁.takesFrom (hfirst.2 e he)).inherits hkv hmerge
      · exact hlater (Graph.becomes_asText g k) (place + 1)
      · exact hlater (.refl g) (place + 1)

theorem mergedFrom_succ (v : ℕ) (g : Graph) :
    EndsIn (fun x => g.Becomes x.1 ∧ ∀ e ∈ x.2, g.TakesFrom v e) (· = .malformed)
      (Yaml.mergedFrom (fuel + 1) v g) := by
  unfold Yaml.mergedFrom
  split
  · refine (h.flatten v g).bind fun g' hg' => ⟨hg', fun e he => ?_⟩
    exact ⟨v, .inl rfl, hg'.inherits he⟩
  · next items hitems =>
    refine (h.mergedFromAll items g).bind fun parts hparts => ⟨hparts.1, fun e he => ?_⟩
    obtain ⟨es, hes, he⟩ := List.mem_flatten.1 he
    obtain ⟨m, hm, he⟩ := hparts.2 es (List.mem_reverse.1 hes) e he
    exact ⟨m, .inr ⟨_, items, hitems, hm⟩, he⟩
  · rfl

theorem mergedFromAll_succ (vs : List ℕ) (g : Graph) :
    EndsIn (fun x => g.Becomes x.1 ∧ ∀ es ∈ x.2, ∀ e ∈ es, ∃ m ∈ vs, g.Inherits m e)
      (· = .malformed) (Yaml.mergedFromAll (fuel + 1) vs g) := by
  cases vs with
  | nil =>
    unfold Yaml.mergedFromAll
    exact ⟨.refl g, fun _ => nofun⟩
  | cons v vs =>
    unfold Yaml.mergedFromAll
    split
    · -- the first mapping is done with before the others are looked at in what it leaves
      refine (h.flatten v g).bind fun g₁ hg₁ => ?_
      refine (h.mergedFromAll vs g₁).bind fun others hothers => ⟨hg₁.trans hothers.1, ?_⟩
      refine List.forall_mem_cons.2 ⟨fun e he => ?_, fun es hes e he => ?_⟩
      · exact ⟨v, List.mem_cons_self, hg₁.inherits he⟩
      · obtain ⟨m, hm, he⟩ := hothers.2 es hes e he
        exact ⟨m, List.mem_cons_of_mem v hm, hg₁.inherits' he⟩
    · rfl

end Flattening

theorem flattening (fuel : ℕ) : Flattening fuel := by
  induction fuel with
  | zero => exact .zero
  | succ fuel ih =>
    exact ⟨ih.flatten_succ, ih.flattenFrom_succ, ih.mergedFrom_succ, ih.mergedFromAll_succ⟩

/-- **Taking over entries brings in none from elsewhere**, and changes nothing else but that keys
become texts. -/
theorem becomes_flatten (fuel i : ℕ) (g : Graph) :
    EndsIn g.Becomes (· = .malformed) (flatten fuel i g) := (flattening fuel).flatten i g

/-! ### Texts -/

variable {g g' : Graph} {i j : ℕ} {text : List ℕ} {f : Fault}

theorem lt_size_of_isMapping (h : (g.node i).isMapping = true) : i < g.size := by
  by_contra hi
  rw [Graph.node, Array.getElem?_eq_none (Nat.le_of_not_lt hi)] at h
  cases h

theorem isMapping_of_mem_entries {n : Node} {e : ℕ × ℕ} (h : e ∈ n.entries) :
    n.isMapping = true := by
  cases n with
  | mapping tag es => rfl
  | _ => exact absurd h List.not_mem_nil

/-- What stands for another node is a mapping. -/
theorem lt_size_of_standsFor (h : g.StandsFor i j) : i < g.size := by
  obtain ⟨k, ⟨m, him, hm⟩, -⟩ := h
  refine lt_size_of_isMapping ?_
  rcases ReflTransGen.cases_head him with rfl | ⟨m', ⟨k, v, hkv, -⟩, -⟩
  · exact isMapping_of_mem_entries hm
  · exact isMapping_of_mem_entries hkv

theorem Graph.Becomes.standsFor (h : g.Becomes g') (hij : g'.StandsFor i j) : g.StandsFor i j := by
  obtain ⟨k, hk, htag⟩ := hij
  exact ⟨k, h.inherits' hk, h.tag_eq_of_ne htag (by decide)⟩

/-- A way of so many steps on which each node stands for the next. -/
structure Path (g : Graph) (n i : ℕ) (path : ℕ → ℕ) : Prop where
  zero : path 0 = i
  step {k : ℕ} (hk : k < n) : g.StandsFor (path k) (path (k + 1))

/-- The text of a node is found on the way from it, or the way is longer than the fuel allows. -/
theorem endsIn_textOf (hg : g.Becomes g') (fuel i : ℕ) :
    EndsIn (g.HasText i) (fun f => f = .malformed ∨ f = .endless ∧ ∃ path, Path g fuel i path)
      (textOf fuel g' i) := by
  induction fuel generalizing i with
  | zero => exact .inr ⟨rfl, fun _ => i, rfl, nofun⟩
  | succ fuel ih =>
    unfold textOf
    split
    · next tag text hscalar =>
      obtain ⟨tag', hi⟩ := hg.scalar hscalar
      exact ⟨i, tag', .refl, hi⟩
    · exact .inl rfl
    · next tag es hmapping =>
      split
      · next e he =>
        have hmem : (e.1, e.2) ∈ (g'.node i).entries := hmapping ▸ List.mem_of_find?_eq_some he
        have htag : (g'.node e.1).tag = .value :=
          of_decide_eq_true (List.find?_some (a := e) he)
        have hstands : g.StandsFor i e.2 :=
          hg.standsFor ⟨e.1, Graph.inherits_of_mem hmem, htag⟩
        refine (ih e.2).mono ?_ ?_
        · rintro text ⟨j, tag, hj, hscalar⟩
          exact ⟨j, tag, .head hstands hj, hscalar⟩
        · rintro f (hf | ⟨hf, path, hzero, hstep⟩)
          · exact .inl hf
          · -- the way from the next node, with one step before it
            refine .inr ⟨hf, fun k => if k = 0 then i else path (k - 1), rfl, fun {k} hk => ?_⟩
            cases k with
            | zero =>
              show g.StandsFor i (path 0)
              rwa [hzero]
            | succ k => exact hstep (Nat.lt_of_succ_lt_succ hk)
      · exact .inl rfl

theorem Path.transGen {n : ℕ} {path : ℕ → ℕ} (h : Path g n i path) {a b : ℕ} (hab : a < b)
    (hb : b ≤ n) : TransGen g.StandsFor (path a) (path b) := by
  induction b, hab using Nat.le_induction with
  | base => exact .single (h.step hb)
  | succ b _ ih => exact (ih (Nat.le_of_succ_le hb)).tail (h.step hb)

/-- A way that is longer than the graph is large leads in a circle. -/
theorem exists_circle_of_path {n : ℕ} {path : ℕ → ℕ} (h : Path g n i path) (hn : g.size < n) :
    ∃ j, TransGen g.StandsFor j j := by
  -- each node on the way but the last is one of the graph, so that one of them comes twice
  have hmaps : ∀ k ∈ Finset.range n, path k ∈ Finset.range g.size := fun k hk =>
    Finset.mem_range.2 (lt_size_of_standsFor (h.step (Finset.mem_range.1 hk)))
  obtain ⟨a, ha, b, hb, hne, heq⟩ := Finset.exists_ne_map_eq_of_card_lt_of_maps_to
    (by rwa [Finset.card_range, Finset.card_range]) hmaps
  have hcircle {a b : ℕ} (hab : a < b) (hb : b < n) (heq : path a = path b) :
      ∃ j, TransGen g.StandsFor j j := by
    have hway := h.transGen hab hb.le
    rw [heq] at hway
    exact ⟨path b, hway⟩
  rcases Nat.lt_or_gt_of_ne hne with hab | hba
  · exact hcircle hab (Finset.mem_range.1 hb) heq
  · exact hcircle hba (Finset.mem_range.1 ha) heq.symm

/-! ### Values -/

/-- A text has a value of the kind of a node that it is the text of, or the graph asks for one in
vain. -/
theorem failsFor_scalarValue_of_hasText (hg : g.Becomes g') (htext : g.HasText i text) :
    FailsFor g.Asks (scalarValue i (g'.node i).tag text) := by
  refine (failsFor_scalarValue i _ text).mono_error ?_
  rintro f (rfl | h)
  · exact .malformed
  · rcases hg.tag_eq i with htag | htag
    · exact .senseless htext (htag ▸ h)
    · -- an ordinary text always has a value
      rw [htag] at h
      cases h

/-- A node that is no collection has a value, or the graph asks for one in vain. -/
theorem failsFor_leafValue (hg : g.Becomes g') (i : ℕ) : FailsFor g.Asks (leafValue g' i) := by
  have hfound : EndsIn (g.HasText i) g.Asks (textOf (g'.size + 1) g' i) := by
    refine (endsIn_textOf hg (g'.size + 1) i).mono_error ?_
    rintro f (rfl | ⟨rfl, path, hpath⟩)
    · exact .malformed
    · rw [hg.size_eq] at hpath
      obtain ⟨j, hj⟩ := exists_circle_of_path hpath (Nat.lt_succ_self _)
      exact .endless hj
  unfold leafValue
  refine .ite (fun _ => .malformed) (hfound.bind fun text htext => ?_)
  refine .ite (fun h => ?_) (failsFor_scalarValue_of_hasText hg htext)
  obtain ⟨htag, hmapping⟩ := Bool.and_eq_true_iff.1 h
  have htag' := hg.tag_eq_of_ne (of_decide_eq_true htag) (by decide)
  exact .noDateOfMapping (hg.isMapping_eq i ▸ hmapping) htag'

theorem failsFor_checkLeaf (hg : g.Becomes g') (leaves : Leaves) (j : ℕ) :
    FailsFor g.Asks (checkParts.checkLeaf g' leaves j) := by
  unfold checkParts.checkLeaf
  exact .ite (fun _ => trivial) ((failsFor_leafValue hg j).bind fun _ _ => trivial)

theorem failsFor_checkParts (hg : g.Becomes g') (leaves : Leaves) (found : List ℕ)
    (parts : List Part) : FailsFor g.Asks (checkParts g' leaves found parts) := by
  induction parts generalizing leaves found with
  | nil => trivial
  | cons part parts ih =>
    cases part with
    | misfit => exact .malformed
    | key j =>
      exact .ite (fun _ => .malformed) ((failsFor_checkLeaf hg leaves j).bind fun _ _ => ih _ _)
    | value j =>
      exact .ite (fun _ => ih _ _) ((failsFor_checkLeaf hg leaves j).bind fun _ _ => ih _ _)

/-- The graph goes on as one in which entries have been taken over. -/
theorem endsIn_checkLevel (hg : g.Becomes g') (leaves : Leaves) (found level : List ℕ) :
    EndsIn (fun x => g.Becomes x.1) g.Asks (checkLevel g' leaves found level) := by
  induction level generalizing g' leaves found with
  | nil => exact hg
  | cons i level ih =>
    have hparts {g' : Graph} (hg : g.Becomes g') :
        EndsIn (fun x => g.Becomes x.1) g.Asks
          (checkParts g' leaves found (partsOf g' i) >>= fun x =>
            checkLevel g' x.1 x.2 level) :=
      (failsFor_checkParts hg leaves found _).bind fun _ _ => ih hg _ _
    have hflatten := (becomes_flatten (8 * (g'.countEntries + g'.size) + 8) i g').mono
      (fun _ h => hg.trans h) fun f (hf : f = .malformed) => hf ▸ (.malformed : g.Asks .malformed)
    exact .ite (fun _ => hflatten.bind fun _ hg => hparts hg) (hparts hg)

theorem failsFor_checkLevels (hg : g.Becomes g') (fuel : ℕ) (leaves : Leaves)
    (seen level : List ℕ) :
    FailsFor g.Asks (checkLevels fuel g' leaves seen level) := by
  induction fuel generalizing g' leaves seen level with
  | zero => trivial
  | succ fuel ih =>
    unfold checkLevels
    exact .ite (fun _ => trivial) ((endsIn_checkLevel hg leaves [] level).bind fun _ hg' =>
      ih hg' _ _ _)

/-! ### Documents -/

/-- What the text asks for in vain. -/
inductive Asks (text : List Char) : Fault → Prop
  /-- The text itself has it. -/
  | inText {f : Fault} (h : f.InText text) : Asks text f
  /-- It opens more collections than can lie in one another. -/
  | tooDeep (h : depthLimit < (scan text).tokens.countP Token.opens) : Asks text .endless
  /-- Its nodes have it. -/
  | ofGraph {root : Option ℕ} {g : Graph} {f : Fault} (hread : readDocument text = .ok (root, g))
      (h : g.Asks f) : Asks text f

/-- **A text without a document asks for something in vain.** -/
theorem asks_of_parse {names : List (List String)} {text : List Char} {f : Fault}
    (h : parse names text = .error f) : Asks text f := by
  unfold parse at h
  cases hread : readDocument text with
  | error f' =>
    rw [hread] at h
    obtain rfl := Except.error.inj h
    cases stopsAt_of_readDocument hread with
    | malformed => exact .inText .malformed
    | ofTokens hfault => exact .inText (inText_of_scan hfault)
    | tooDeep hdeep => exact .tooDeep hdeep
  | ok x =>
    obtain ⟨root, g⟩ := x
    rw [hread] at h
    refine .ofGraph hread ?_
    cases root with
    | none => cases h
    | some i =>
      refine EndsIn.of_error (P := fun _ => True) ?_ h
      exact .ite (fun _ => (failsFor_checkLevels (.refl g) _ _ _ _).bind fun _ _ => trivial)
        (failsFor_leafValue (.refl g) i)

end Yaml

end SemverRange
