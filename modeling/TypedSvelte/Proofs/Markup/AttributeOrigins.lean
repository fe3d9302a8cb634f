import TypedSvelte.Proofs.Markup.Collections
import TypedSvelte.Proofs.Markup.SwappedSteps

/-!
# Where attributes come from

The attributes of the elements of a source are those that its opening tags were read with: each of
them is the attribute ahead at some place of the source (`exists_readAttribute`), so that what the
scanner does there is all there is to know about it.
-/
namespace TypedSvelte.Markup

open Scan

variable {source : String}

private theorem elementsOf_eq_flatMap (nodes : List Node) :
    elementsOf nodes = nodes.flatMap Node.elements := by
  induction nodes with
  | nil => rfl
  | cons node rest ih => rw [elementsOf, ih, List.flatMap_cons]

/-- The attributes of the elements of nodes as a collection. -/
def attributeCollection : Collection Attribute where
  ofNode node := node.elements.flatMap (·.attributes)
  ofAlternate rest := rest.elements.flatMap (·.attributes)
  ofAttribute a := [a]
  ofCast _ := []
  element head children := by
    simp [Node.elements, elementsOf_eq_flatMap, List.flatMap_assoc]
  mustache _ _ := rfl
  tag _ _ _ := (List.flatMap_eq_nil_iff.2 fun _ _ => rfl).symm
  ifBlock _ _ consequent alternate := by
    simp [Node.elements, elementsOf_eq_flatMap, List.flatMap_assoc]
  each _ body fallback := by
    cases fallback <;>
      simp [Node.elements, elementsOf_eq_flatMap, elementsOfBranch, List.flatMap_assoc]
  await _ pending onThen onCatch := by
    cases onThen <;> cases onCatch <;>
      simp [Node.elements, elementsOf_eq_flatMap, elementsOfBranch, List.flatMap_assoc]
  key _ _ body := by simp [Node.elements, elementsOf_eq_flatMap, List.flatMap_assoc]
  absent := rfl
  otherwise nodes := by simp [Alternate.elements, elementsOf_eq_flatMap, List.flatMap_assoc]
  elseIf _ _ consequent alternate := by
    simp [Alternate.elements, elementsOf_eq_flatMap, List.flatMap_assoc]

namespace Reading

variable {r next : Reading} {a : Attribute}

/-- The attributes of the elements that have been read. -/
def attributes (r : Reading) : List Attribute := attributeCollection.ofReading r

/-- An attribute that has been read by the next reading has been read before, or it belongs to the
opening tag that the step reads. -/
theorem attributes_step (placed : r.Placed source) (takes : r.Takes next)
    (member : a ∈ next.attributes) :
    a ∈ r.attributes ∨ next = r.readElement ∧ a ∈ r.openingTag.attributes := by
  refine (Collection.mem_step placed takes member).imp_right fun added => ?_
  cases added with
  | ofTag own itself =>
    cases List.mem_singleton.1 itself
    exact ⟨rfl, own⟩
  | cast tells nothing => cases nothing
  | text nothing => cases nothing
  | comment nothing => cases nothing

/-- The attributes of an opening tag without errors are read without errors. -/
theorem exists_attributes (here : (ofSource source).Reaches r.scan)
    (accepted : r.openingTag.scan.errors = []) : ∃ n,
      r.openingTag.attributes = ((r.scan.skip 1).skip n).attributes.1 ∧
        ((r.scan.skip 1).skip n).attributes.2.errors = [] := by
  have toAttributes (n : Nat) := ((r.scan.reaches_skip 1).skip n).trans (reaches_attributes _)
  refine ⟨_, rfl, List.suffix_nil.1 ?_⟩
  rw [← accepted]
  exact (leads_tagEnd (here.since (toAttributes _)) _).kept

/-- An attribute of a reading without errors belongs to an opening tag that was read without
errors. -/
theorem exists_openingTag {n : Nat} (reached : Reached source n r)
    (accepted : r.scan.errors = []) (member : a ∈ r.attributes) : ∃ before : Reading,
      (ofSource source).Reaches before.scan ∧ before.openingTag.scan.errors = [] ∧
        a ∈ before.openingTag.attributes := by
  induction reached with
  | start => cases member
  | @step n before after reached stepped ih =>
    have kept := (reached.placed.leads_step stepped).kept
    rw [accepted] at kept
    rcases attributes_step reached.placed (takes_of_step stepped) member with old | ⟨rfl, own⟩
    · exact ih (List.suffix_nil.1 kept) old
    · exact ⟨before, reached.placed.here, accepted_openingTag accepted, own⟩

end Reading

/-- An attribute of a tag is the one ahead at some place in it. -/
theorem Scan.exists_readAttribute {s : Scan} {a : Attribute} (here : (ofSource source).Reaches s)
    (accepted : s.attributes.2.errors = []) (member : a ∈ s.attributes.1) : ∃ t : Scan,
      (ofSource source).Reaches t ∧ t.readAttribute.1 = some a ∧
        t.readAttribute.2.errors = [] := by
  fun_induction attributes s with
  | case1 s blank ended => cases member
  | case2 s blank ended atEnd => cases member
  | case3 s blank ended atEnd shorter more ih =>
    have toBlank := here.trans s.reaches_skipBlank
    have toNext := toBlank.trans (reaches_readAttribute _)
    rcases List.mem_append.1 member with first | later
    · have kept := (leads_attributes toNext).kept
      rw [accepted] at kept
      exact ⟨blank, toBlank, Option.mem_toList.1 first, List.suffix_nil.1 kept⟩
    · exact ih toNext accepted later

/-- An attribute of an element of a source without errors is the one ahead at some place of the
source, where it is read without errors. -/
theorem exists_readAttribute {head : ElementHead} {a : Attribute}
    (accepted : (parse source).errors = [])
    (element : head ∈ elementsOf (parse source).document.fragment) (member : a ∈ head.attributes) :
    ∃ s : Scan, (ofSource source).Reaches s ∧ s.readAttribute.1 = some a ∧
      s.readAttribute.2.errors = [] := by
  have noErrors : (Reading.start source).finish.scan.errors = [] :=
    List.reverse_eq_nil_iff.1 accepted
  have read : a ∈ (Reading.start source).finish.attributes := by
    apply List.mem_append_right
    rw [← Collection.mem_ofNodes_reverse]
    rw [elementsOf_eq_flatMap] at element
    obtain ⟨node, inFragment, inNode⟩ := List.mem_flatMap.1 element
    exact List.mem_flatMap.2 ⟨node, inFragment, List.mem_flatMap.2 ⟨head, inNode, member⟩⟩
  have begins : Reading.Reached source 0 (Reading.start source) := .start
  obtain ⟨last, toLast⟩ := begins.finish
  obtain ⟨before, here, clean, own⟩ := Reading.exists_openingTag toLast noErrors read
  obtain ⟨n, attributes, kept⟩ := Reading.exists_attributes here clean
  rw [attributes] at own
  exact Scan.exists_readAttribute ((here.skip 1).skip n) kept own

end TypedSvelte.Markup
