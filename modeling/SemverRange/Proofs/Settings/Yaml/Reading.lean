import SemverRange.Proofs.Settings.Yaml.Scanning
import SemverRange.Settings.Yaml.Node

/-!
# What the nodes of a YAML text cannot be read at

The nodes are read up to the first token that does not fit, or to the fault that the tokens end
with.  Apart from that, reading stops only where collections lie too deep in one another.  Every
collection has a token that opens it, and so the collections that are open and those that can yet
be opened never become more.

## Main definitions

* `Yaml.Token.opens` — the token opens a collection.
* `Yaml.StopsAt` — the reasons for which reading stops.
* `Yaml.Keeps` — what is read leaves an end of the tokens, or it stops for one of the reasons.

## Main results

* `Yaml.keeping` — the readers of nodes and of all their parts.
* `Yaml.stopsAt_of_readDocument` — **a document that is not read has what stops the reading.**
-/

namespace SemverRange

namespace Yaml

/-- The token opens a collection, as its own mark or as that of its first part. -/
def Token.opens : Token → Bool
  | flowSequenceStart | flowMappingStart | blockSequenceStart | blockMappingStart | blockEntry |
    key => true
  | _ => false

/-- How many collections are open or can yet be opened. -/
def Reader.collections (r : Reader) : ℕ := r.depth + r.tokens.countP Token.opens

/-- The state after the next token. -/
def Reader.passed (r : Reader) : Reader := { r with tokens := r.tokens.drop 1 }

/-- The state with a collection more around it. -/
def Reader.entered (r : Reader) : Reader := { r with depth := r.depth + 1 }

/-- The state with other nodes and names. -/
def Reader.noted (r : Reader) (graph : Graph) (anchors : List (List Char × ℕ)) : Reader :=
  { r with graph, anchors }

/-- The one state comes after the other, with the same collections around it. -/
structure Reader.Follows (r r' : Reader) : Prop where
  fault_eq : r'.fault = r.fault
  depth_eq : r'.depth = r.depth
  tokens_suffix : r'.tokens <:+ r.tokens

/-- Reading stops at the token, at the fault that the tokens end with, or at a collection too many,
where there are no more than so many. -/
inductive StopsAt (fault : Option Fault) (total : ℕ) : Fault → Prop
  | malformed : StopsAt fault total .malformed
  | ofTokens {f : Fault} (h : fault = some f) : StopsAt fault total f
  | tooDeep (h : depthLimit < total) : StopsAt fault total .endless

variable {α β : Type} {r r' r'' : Reader} {total : ℕ} {x : Read α} {f : α → Read β}

namespace Reader

theorem Follows.refl (r : Reader) : r.Follows r := ⟨rfl, rfl, List.suffix_rfl⟩

theorem Follows.trans (h : r.Follows r') (h' : r'.Follows r'') : r.Follows r'' :=
  ⟨h'.fault_eq.trans h.fault_eq, h'.depth_eq.trans h.depth_eq,
    h'.tokens_suffix.trans h.tokens_suffix⟩

/-- Collections never become more. -/
theorem Follows.collections_le (h : r.Follows r') : r'.collections ≤ r.collections := by
  rw [collections, collections, h.depth_eq]
  exact Nat.add_le_add_left h.tokens_suffix.sublist.countP_le _

theorem follows_noted (r : Reader) (graph : Graph) (anchors : List (List Char × ℕ)) :
    r.Follows (r.noted graph anchors) := ⟨rfl, rfl, List.suffix_rfl⟩

theorem follows_passed (r : Reader) : r.Follows r.passed := ⟨rfl, rfl, List.drop_suffix 1 r.tokens⟩

/-- Behind a token that opens a collection there is one less to be opened. -/
theorem collections_passed {t : Token} (hhead : r.tokens.head? = some t) (ht : t.opens = true) :
    r.passed.collections + 1 = r.collections := by
  obtain ⟨ts, hts⟩ := List.head?_eq_some_iff.1 hhead
  have hpassed : r.passed.tokens = ts := by rw [passed, hts]; rfl
  rw [collections, collections, hpassed, hts, List.countP_cons_of_pos ht]
  rfl

theorem collections_entered (r : Reader) : r.entered.collections = r.collections + 1 :=
  Nat.add_right_comm r.depth 1 _

end Reader

/-- Reading from the state leads to a state after it, or stops for one of the reasons. -/
def Reads (x : Read α) (r : Reader) (total : ℕ) : Prop :=
  EndsIn (fun p => r.Follows p.2) (StopsAt r.fault total) (x.run r)

/-- Wherever reading starts, it leads on, or stops for one of the reasons. -/
def Keeps (x : Read α) : Prop := ∀ r : Reader, ∀ total, r.collections ≤ total → Reads x r total

/-- Where a token opens a collection, reading leads on, or stops for one of the reasons; that
collection does not count. -/
def KeepsOpened (x : Read α) : Prop :=
  ∀ r : Reader, ∀ total t, r.tokens.head? = some t → t.opens = true → r.collections ≤ total + 1 →
    Reads x r total

/-! ### Steps of reading -/

theorem Reads.bind (hx : Reads x r total) (hf : ∀ a r', r.Follows r' → Reads (f a) r' total) :
    Reads (x >>= f) r total :=
  EndsIn.bind hx fun p hp => (hf p.1 p.2 hp).mono (fun _ hq => hp.trans hq) fun _ he =>
    hp.fault_eq ▸ he

theorem Keeps.bind (hx : Keeps x) (hf : ∀ a, Keeps (f a)) : Keeps (x >>= f) :=
  fun r total h => (hx r total h).bind fun a r' hr' =>
    hf a r' total (Nat.le_trans hr'.collections_le h)

theorem reads_pure (a : α) : Reads (pure a) r total := Reader.Follows.refl r

theorem keeps_pure (a : α) : Keeps (pure a) := fun _ _ _ => reads_pure a

theorem keeps_refuse : Keeps (refuse (α := α)) := fun _ _ _ => .malformed

theorem Keeps.ite {p : Prop} [Decidable p] {x y : Read α} (hx : Keeps x) (hy : Keeps y) :
    Keeps (if p then x else y) := by
  split
  · exact hx
  · exact hy

/-- What only looks at the state leads nowhere else. -/
theorem keeps_get : Keeps (get : Read Reader) := fun r _ _ => .refl r

theorem run_peek (r : Reader) :
    peek.run r = match r.tokens with
      | t :: _ => .ok (t, r)
      | [] => .error (r.fault.getD .malformed) := by
  obtain ⟨tokens, _⟩ := r
  cases tokens <;> rfl

/-- The next token is seen, if there is one. -/
theorem Reads.peek_bind {f : Token → Read β}
    (hf : ∀ t, r.tokens.head? = some t → Reads (f t) r total) : Reads (peek >>= f) r total := by
  rw [Reads, StateT.run_bind, run_peek]
  cases hts : r.tokens with
  | nil =>
    cases hfault : r.fault with
    | none => exact .malformed
    | some f => exact .ofTokens rfl
  | cons t ts => exact hf t (hts ▸ rfl)

theorem keeps_peek : Keeps peek := fun r total _ => by
  rw [← bind_pure peek]
  exact .peek_bind fun _ _ => .refl r

/-- What is read from a later state, after what does not fail. -/
theorem Reads.step {x y : Read α} (hr' : r.Follows r') (hy : Reads y r' total)
    (hrun : x.run r = y.run r') : Reads x r total := by
  rw [Reads, hrun]
  exact hy.mono (fun _ hp => hr'.trans hp) fun _ he => hr'.fault_eq ▸ he

/-- The next token is passed. -/
theorem Reads.pass_bind {f : Unit → Read β} (hf : Reads (f ()) r.passed total) :
    Reads (pass >>= f) r total := .step r.follows_passed hf rfl

theorem keeps_pass : Keeps pass := fun r _ _ => r.follows_passed

/-- The next token is passed if it is the one. -/
theorem Reads.passIf_bind {t : Token} {f : Bool → Read β}
    (htrue : r.tokens.head? = some t → Reads (f true) r.passed total)
    (hfalse : Reads (f false) r total) : Reads (passIf t >>= f) r total := by
  rw [passIf, bind_assoc]
  refine .peek_bind fun t' ht' => ?_
  split
  · next heq =>
    rw [bind_assoc]
    exact .pass_bind (htrue (heq ▸ ht'))
  · exact hfalse

theorem keeps_passIf (t : Token) : Keeps (passIf t) := by
  unfold passIf
  exact keeps_peek.bind fun _ => .ite (keeps_pass.bind fun _ => keeps_pure _) (keeps_pure _)

theorem keeps_addNode (n : Node) : Keeps (addNode n) := fun _ _ _ => ⟨rfl, rfl, List.suffix_rfl⟩

theorem keeps_nameNode (anchor : Option (List Char)) (i : ℕ) : Keeps (nameNode anchor i) := by
  cases anchor with
  | none => exact keeps_pure ()
  | some name => exact fun _ _ _ => ⟨rfl, rfl, List.suffix_rfl⟩

theorem keeps_readProperties : Keeps readProperties := by
  unfold readProperties
  refine keeps_peek.bind fun t => ?_
  split
  · refine keeps_pass.bind fun _ => keeps_peek.bind fun t => ?_
    split
    · exact keeps_pass.bind fun _ => keeps_pure _
    · exact keeps_pure _
  · refine keeps_pass.bind fun _ => keeps_peek.bind fun t => ?_
    split
    · exact keeps_pass.bind fun _ => keeps_pure _
    · exact keeps_pure _
  · exact keeps_pure _

theorem keeps_resolveTag (t : TagText) : Keeps (resolveTag t) := by
  unfold resolveTag
  dsimp only
  split
  · exact keeps_pure _
  · refine keeps_get.bind fun r => ?_
    split
    · exact keeps_pure _
    · exact keeps_refuse.bind fun _ => keeps_pure _

/-- Whether the name is given already is seen from the state, which stays as it is. -/
theorem Reads.checkAnchor_bind {anchor : Option (List Char)} {f : Unit → Read β}
    (hf : Reads (f ()) r total) : Reads (checkAnchor anchor >>= f) r total := by
  cases anchor with
  | none => exact hf
  | some name =>
    show Reads ((if (r.anchors.lookup name).isSome then refuse else pure ()) >>= f) r total
    split
    · exact .malformed
    · exact hf

theorem keeps_checkAnchor (anchor : Option (List Char)) : Keeps (checkAnchor anchor) :=
  fun r total _ => by
    rw [← bind_pure (checkAnchor anchor)]
    exact .checkAnchor_bind (.refl r)

/-- What is read within a collection is read as it would be without, where there is one more around
it. -/
theorem Reads.within (hroom : r.depth < total) (hx : Reads x r.entered total) :
    Reads (within x) r total := by
  unfold Yaml.within
  show Reads (if depthLimit ≤ r.depth then _ else _) r total
  split
  · next hdeep => exact .tooDeep (Nat.lt_of_le_of_lt hdeep hroom)
  · -- at the end there is again one less around it
    refine EndsIn.bind hx fun p hp => ⟨hp.fault_eq, ?_, hp.tokens_suffix⟩
    show p.2.depth - 1 = r.depth
    rw [hp.depth_eq]
    rfl

theorem keeps_readAlias (name : List Char) : Keeps (readAlias name) := by
  unfold readAlias
  refine keeps_get.bind fun r => ?_
  split
  · exact keeps_pure _
  · exact keeps_refuse

theorem keeps_readScalar (p : Properties) (tag : Option Tag) (text : List ℕ) (plain : Bool) :
    Keeps (readScalar p tag text plain) :=
  (keeps_addNode _).bind fun i => (keeps_nameNode _ i).bind fun _ => keeps_pure i

theorem keeps_readComma (first : Bool) : Keeps (readComma first) := by
  unfold readComma
  exact .ite (keeps_pure ()) ((keeps_passIf _).bind fun _ => .ite (keeps_pure ()) keeps_refuse)

theorem keeps_readBare (p : Properties) (tag : Option Tag) : Keeps (readBare p tag) := by
  have hscalar : Keeps (checkAnchor p.anchor >>= fun _ => readScalar p tag [] p.tag.isNone) :=
    (keeps_checkAnchor _).bind fun _ => keeps_readScalar _ _ _ _
  unfold readBare
  exact .ite (keeps_refuse.bind fun _ => hscalar) hscalar

section Collections

variable {anchor : Option (List Char)} {make : List α → Node} {parts : Read (List α)}

/-- A collection gets its number and its name before what is within is read; the tokens and the
depth stay as they are. -/
theorem Reads.readCollection
    (hwithin : ∀ r' : Reader, r'.depth = r.depth → r'.tokens = r.tokens →
      Reads (Yaml.within parts) r' total) :
    Reads (Yaml.readCollection anchor make parts) r total := by
  unfold Yaml.readCollection
  have hread (anchors : List (List Char × ℕ)) : Reads (do
      let ps ← Yaml.within parts
      setNode r.graph.size (make ps)
      pure r.graph.size) (r.noted (r.graph.push (make [])) anchors) total := by
    refine (hwithin (r.noted _ anchors) rfl rfl).bind fun ps r' _ => ?_
    exact .step (r'.follows_noted _ _) (reads_pure r.graph.size) rfl
  cases anchor with
  | none => exact .step (r.follows_noted _ _) (hread r.anchors) rfl
  | some name => exact .step (r.follows_noted _ _) (hread ((name, r.graph.size) :: r.anchors)) rfl

/-- A collection, after the token that opens it. -/
theorem reads_readCollection (hparts : Keeps parts) (h : r.collections < total) :
    Reads (readCollection anchor make parts) r total := by
  refine .readCollection fun r' hdepth htokens => ?_
  have hr' : r'.collections = r.collections := by
    rw [Reader.collections, Reader.collections, hdepth, htokens]
  refine .within ?_ (hparts r'.entered total ?_)
  · exact Nat.lt_of_le_of_lt (Nat.le_add_right _ _) (hr' ▸ h)
  · rw [r'.collections_entered, hr']
    exact h

/-- A collection, before the token that opens it with its first part. -/
theorem reads_readCollection_of_opened {t : Token} (hparts : KeepsOpened parts)
    (hhead : r.tokens.head? = some t) (ht : t.opens = true) (h : r.collections ≤ total) :
    Reads (readCollection anchor make parts) r total := by
  refine .readCollection fun r' hdepth htokens => ?_
  have hr' : r'.collections = r.collections := by
    rw [Reader.collections, Reader.collections, hdepth, htokens]
  have hhead' : r'.tokens.head? = some t := htokens ▸ hhead
  refine .within ?_ (hparts r'.entered total t hhead' ht ?_)
  · have hpassed := Reader.collections_passed hhead' ht
    have hdepth : r'.depth ≤ r'.passed.collections := Nat.le_add_right _ _
    omega
  · rw [r'.collections_entered, hr']
    exact Nat.succ_le_succ h

/-- A collection with a mark of its own. -/
theorem reads_marked {t : Token} (hparts : Keeps parts) (hhead : r.tokens.head? = some t)
    (ht : t.opens = true) (h : r.collections ≤ total) :
    Reads (do
      checkAnchor anchor
      pass
      readCollection anchor make parts) r total := by
  refine .checkAnchor_bind (.pass_bind (reads_readCollection hparts ?_))
  have hpassed := Reader.collections_passed hhead ht
  omega

end Collections

/-! ### Nodes -/

/-- The readers of nodes and of their parts, with so much fuel. -/
structure Keeping (fuel : ℕ) : Prop where
  node (position : Position) : Keeps (readNode fuel position)
  unlessEnd (ends : List Token) (position : Position) : Keeps (readUnless fuel ends position)
  items : Keeps (readItems fuel)
  looseItems : Keeps (readLooseItems fuel)
  looseItems_opened : KeepsOpened (readLooseItems fuel)
  value (ends : List Token) (position : Position) : Keeps (readValue fuel ends position)
  entries : Keeps (readEntries fuel)
  flowItems (first : Bool) : Keeps (readFlowItems fuel first)
  singleEntry_opened : KeepsOpened (readSingleEntry fuel)
  flowEntries (first : Bool) : Keeps (readFlowEntries fuel first)

namespace Keeping

variable {fuel : ℕ} (h : Keeping fuel)
include h

theorem readNode (position : Position) : Keeps (readNode (fuel + 1) position) := by
  unfold Yaml.readNode
  intro r total hr
  refine .peek_bind fun t ht => ?_
  split
  · exact (keeps_pass.bind fun _ => keeps_readAlias _) r total hr
  refine (keeps_readProperties r total hr).bind fun p r₁ hr₁ => ?_
  have htag : Keeps (p.tag.elim (pure none) resolveTag) := by
    cases p.tag with
    | none => exact keeps_pure _
    | some t => exact keeps_resolveTag t
  have htotal₁ := Nat.le_trans hr₁.collections_le hr
  refine (htag r₁ total htotal₁).bind fun tag r₂ hr₂ => ?_
  have htotal := Nat.le_trans hr₂.collections_le htotal₁
  refine .peek_bind fun next hhead => ?_
  split
  · -- a list that is not indented has no mark but that of its first entry
    next hloose =>
    have hopens : next.opens = true := by
      rw [of_decide_eq_true (Bool.and_eq_true_iff.1 hloose).2]
      rfl
    exact .checkAnchor_bind
      (reads_readCollection_of_opened h.looseItems_opened hhead hopens htotal)
  have hbare : Reads (readBare p tag) r₂ total := keeps_readBare p tag r₂ total htotal
  split
  · exact (keeps_pass.bind fun _ => (keeps_checkAnchor _).bind fun _ =>
      keeps_readScalar _ _ _ _) r₂ total htotal
  · exact reads_marked (h.flowItems true) hhead rfl htotal
  · exact reads_marked (h.flowEntries true) hhead rfl htotal
  · split
    · exact hbare
    · exact reads_marked h.items hhead rfl htotal
  · split
    · exact hbare
    · exact reads_marked h.entries hhead rfl htotal
  · exact hbare

theorem readUnless (ends : List Token) (position : Position) :
    Keeps (readUnless (fuel + 1) ends position) := by
  unfold Yaml.readUnless
  exact keeps_peek.bind fun _ => .ite (keeps_addNode _) (h.node position)

theorem readItems : Keeps (readItems (fuel + 1)) := by
  unfold Yaml.readItems
  refine (keeps_passIf _).bind fun _ => .ite ?_ ?_
  · exact (h.unlessEnd _ _).bind fun _ => h.items.bind fun _ => keeps_pure _
  · exact (keeps_passIf _).bind fun _ => .ite (keeps_pure _) keeps_refuse

theorem readValue (ends : List Token) (position : Position) :
    Keeps (readValue (fuel + 1) ends position) := by
  unfold Yaml.readValue
  exact (keeps_passIf _).bind fun _ => .ite (h.unlessEnd ends position) (keeps_addNode _)

theorem readEntries : Keeps (readEntries (fuel + 1)) := by
  unfold Yaml.readEntries
  refine (keeps_passIf _).bind fun _ => .ite ?_ ?_
  · exact (h.unlessEnd _ _).bind fun _ => (h.value _ _).bind fun _ =>
      h.entries.bind fun _ => keeps_pure _
  · exact (keeps_passIf _).bind fun _ => .ite (keeps_pure _) keeps_refuse

/-- Entries of a list that is not indented are read on from any of them. -/
theorem readLooseItems : Keeps (readLooseItems (fuel + 1)) := by
  unfold Yaml.readLooseItems
  refine (keeps_passIf _).bind fun _ => .ite ?_ (keeps_pure _)
  exact (h.unlessEnd _ _).bind fun _ => h.looseItems.bind fun _ => keeps_pure _

theorem readLooseItems_opened : KeepsOpened (Yaml.readLooseItems (fuel + 1)) := by
  intro r total t hhead ht hr
  unfold Yaml.readLooseItems
  refine .passIf_bind (fun _ => ?_) (.refl r)
  -- the list that its first entry opens is already counted
  have hpassed : r.passed.collections ≤ total := by
    have hpassed := Reader.collections_passed hhead ht
    omega
  exact ((h.unlessEnd _ _).bind fun _ => h.looseItems.bind fun _ => keeps_pure _) _ _ hpassed

theorem readSingleEntry_opened : KeepsOpened (Yaml.readSingleEntry (fuel + 1)) := by
  intro r total t hhead ht hr
  unfold Yaml.readSingleEntry
  have hpassed : r.passed.collections ≤ total := by
    have hpassed := Reader.collections_passed hhead ht
    omega
  exact .pass_bind (((h.unlessEnd _ _).bind fun _ => (h.value _ _).bind fun _ =>
    keeps_pure _) _ _ hpassed)

theorem readFlowItems (first : Bool) : Keeps (Yaml.readFlowItems (fuel + 1) first) := by
  unfold Yaml.readFlowItems
  dsimp only
  refine (keeps_passIf _).bind fun _ => .ite (keeps_pure _) ?_
  refine (keeps_readComma _).bind fun _ => (keeps_passIf _).bind fun _ => .ite (keeps_pure _) ?_
  intro r total hr
  refine .peek_bind fun t ht => ?_
  have hrest (i : ℕ) : Keeps (Yaml.readFlowItems fuel false >>= fun is => pure (i :: is)) :=
    (h.flowItems false).bind fun _ => keeps_pure _
  split
  · -- a key among the items of a list opens a mapping of one entry
    next heq =>
    have hopens : t.opens = true := heq ▸ rfl
    exact (reads_readCollection_of_opened h.singleEntry_opened ht hopens hr).bind fun i r' hr' =>
      hrest i r' total (Nat.le_trans hr'.collections_le hr)
  · exact ((h.node .flow).bind hrest) r total hr

theorem readFlowEntries (first : Bool) : Keeps (Yaml.readFlowEntries (fuel + 1) first) := by
  unfold Yaml.readFlowEntries
  dsimp only
  refine (keeps_passIf _).bind fun _ => .ite (keeps_pure _) ?_
  refine (keeps_readComma _).bind fun _ => (keeps_passIf _).bind fun _ => .ite (keeps_pure _) ?_
  have hrest (k v : ℕ) :
      Keeps (Yaml.readFlowEntries fuel false >>= fun es => pure ((k, v) :: es)) :=
    (h.flowEntries false).bind fun _ => keeps_pure _
  refine (keeps_passIf _).bind fun isKey => .ite ?_ ?_
  · exact (h.unlessEnd _ _).bind fun k =>
      .ite ((h.value _ _).bind (hrest k)) ((keeps_addNode _).bind (hrest k))
  · exact (h.node .flow).bind fun k =>
      .ite ((h.value _ _).bind (hrest k)) ((keeps_addNode _).bind (hrest k))

end Keeping

/-- **The readers of nodes and of their parts lead on, or stop for one of the reasons**, with any
fuel. -/
theorem keeping (fuel : ℕ) : Keeping fuel := by
  induction fuel with
  | zero =>
    exact ⟨fun _ => keeps_refuse, fun _ _ => keeps_refuse, keeps_refuse, keeps_refuse,
      fun _ _ _ _ _ _ => .malformed, fun _ _ => keeps_refuse, keeps_refuse, fun _ => keeps_refuse,
      fun _ _ _ _ _ _ => .malformed, fun _ => keeps_refuse⟩
  | succ fuel ih =>
    exact ⟨ih.readNode, ih.readUnless, ih.readItems, ih.readLooseItems, ih.readLooseItems_opened,
      ih.readValue, ih.readEntries, ih.readFlowItems, ih.readSingleEntry_opened, ih.readFlowEntries⟩

/-! ### Documents -/

theorem keeps_add (ds : Directives) (d : Directive) : Keeps (ds.add d) := by
  cases d with
  | version major minor => exact .ite keeps_refuse (keeps_pure _)
  | handle name start => exact .ite keeps_refuse (keeps_pure _)
  | other => exact keeps_pure ds

theorem keeps_readDirectives (n : ℕ) (ds : Directives) : Keeps (readDirectives n ds) := by
  induction n generalizing ds with
  | zero => exact keeps_refuse
  | succ n ih =>
    unfold readDirectives
    refine keeps_peek.bind fun t => ?_
    split
    · exact keeps_pass.bind fun _ => (keeps_add ds _).bind ih
    · exact keeps_pure ds

theorem keeps_skipDocumentEnds (n : ℕ) : Keeps (skipDocumentEnds n) := by
  induction n with
  | zero => exact keeps_refuse
  | succ n ih => exact (keeps_passIf _).bind fun _ => .ite ih (keeps_pure ())

theorem keeps_readDocumentStart (n : ℕ) : Keeps (readDocumentStart n) := by
  unfold readDocumentStart
  refine (keeps_readDirectives n _).bind fun ds => ?_
  refine Keeps.bind (fun r _ _ => ?_) fun _ =>
    (keeps_passIf _).bind fun _ => .ite (keeps_pure ()) keeps_refuse
  show r.Follows { r with handles := ds.handles ++ usualHandles }
  exact ⟨rfl, rfl, List.suffix_rfl⟩

theorem keeps_readEnd (n : ℕ) : Keeps (readEnd n) :=
  (keeps_skipDocumentEnds n).bind fun _ => keeps_peek.bind fun _ =>
    .ite ((keeps_readDocumentStart n).bind fun _ => keeps_refuse) (keeps_pure ())

theorem keeps_readText (n : ℕ) : Keeps (readText n) := by
  unfold readText
  extract_lets close
  have hclose (root : ℕ) : Keeps (close root) := (keeps_readEnd n).bind fun _ => keeps_pure _
  refine keeps_peek.bind fun first => ?_
  extract_lets explicit begin
  have hbegin : Keeps (begin ()) := by
    refine keeps_peek.bind fun t => ?_
    extract_lets isEmpty
    exact .ite ((keeps_addNode _).bind hclose) (((keeping _).node _).bind hclose)
  exact .ite (keeps_pure none) (.ite ((keeps_readDocumentStart n).bind fun _ => hbegin) hbegin)

/-- **A document that is not read has what stops the reading**: a text that is malformed, a fault of
its tokens, or more collections in it than can lie in one another. -/
theorem stopsAt_of_readDocument {text : List Char} {f : Fault}
    (h : readDocument text = .error f) :
    StopsAt (scan text).fault ((scan text).tokens.countP Token.opens) f := by
  unfold readDocument at h
  dsimp only at h
  split at h
  · obtain rfl := Except.error.inj h
    exact .malformed
  · let start : Reader :=
      { tokens := (scan text).tokens, fault := (scan text).fault, graph := #[], anchors := []
        handles := usualHandles, depth := 0 }
    have hstart : start.collections = (scan text).tokens.countP Token.opens := Nat.zero_add _
    have hread := keeps_readText ((scan text).tokens.length + 2) start _ (Nat.le_of_eq hstart)
    refine EndsIn.of_error (P := fun _ => True) ?_ h
    exact EndsIn.bind hread fun _ _ => trivial

end Yaml

end SemverRange
