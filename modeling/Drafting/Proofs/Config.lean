import Mathlib
import Drafting.Config.Validate
import Drafting.Proofs.Scalar.Lengths
import Drafting.Scalar.Exact

/-!
What a valid configuration guarantees.

* `Rule.Holds`: a rule is kept.
* `Config.validate_eq_ok_iff`: a configuration is valid when all rules are kept.
* `GraphConfig.Sensible`: no distance of a graph is negative, and what keeps elements apart is
  positive; so it is under a valid configuration.
* `SequenceConfig.Sensible`: the distances of a sequence diagram are lengths; so they are
  under a valid configuration.
* `SequenceConfig.SensibleSides`: so are the sizes of what is drawn beside lifelines.
-/

namespace Drafting

variable {α : Type} [Scalar α]

/-- A rule is kept. -/
def Rule.Holds : Rule α → Prop
  | .positive _ value => IsPositive value
  | .nonneg _ value => IsNonneg value
  | .nonzero _ count => 0 < count

lemma Rule.check_eq_none_iff (rule : Rule α) : rule.check = none ↔ rule.Holds := by
  cases rule with
  | positive field value => simp [Rule.check, Rule.Holds]
  | nonneg field value => simp [Rule.check, Rule.Holds]
  | nonzero field count => simp [Rule.check, Rule.Holds, Nat.pos_iff_ne_zero]

/-- A configuration is valid when all rules are kept. -/
lemma Config.validate_eq_ok_iff (c : Config α) :
    c.validate = .ok () ↔ ∀ rule ∈ c.rules, rule.Holds := by
  have hviolation : c.validate = .ok () ↔ c.violation? = none := by
    rw [Config.validate]
    cases c.violation? <;> simp
  rw [hviolation, Config.violation?, List.findSome?_eq_none_iff]
  exact forall₂_congr fun rule _ => rule.check_eq_none_iff

lemma Config.graph_rules_hold {c : Config α} (h : c.validate = .ok ()) :
    ∀ rule ∈ c.graph.rules, rule.Holds := by
  intro rule hrule
  refine c.validate_eq_ok_iff.mp h rule ?_
  simp [Config.rules, hrule]

lemma Config.sequence_rules_hold {c : Config α} (h : c.validate = .ok ()) :
    ∀ rule ∈ c.sequence.rules, rule.Holds := by
  intro rule hrule
  refine c.validate_eq_ok_iff.mp h rule ?_
  simp [Config.rules, hrule]

/-- No distance of a graph is negative; what keeps elements apart is positive. -/
structure GraphConfig.Sensible (c : GraphConfig Rat) : Prop where
  nodePadding : 0 ≤ c.nodePadding
  nodeSpacing : 0 < c.nodeSpacing
  virtualNodeWidth : 0 ≤ c.virtualNodeWidth
  rankGap : 0 < c.rankGap
  componentGap : 0 < c.componentGap
  clusterPadding : 0 ≤ c.clusterPadding
  edgeLabelPadding : 0 ≤ c.edgeLabelPadding

lemma Config.sensible_graph {c : Config Rat} (h : c.validate = .ok ()) : c.graph.Sensible := by
  have hrules := Config.graph_rules_hold h
  simp only [GraphConfig.rules, List.forall_mem_cons, Rule.Holds, IsPositive, IsNonneg] at hrules
  obtain ⟨-, hnodePadding, hnodeSpacing, hvirtualNodeWidth, hrankGap, hcomponentGap,
      hclusterPadding, -, -, -, -, hedgeLabelPadding, -⟩ := hrules
  exact ⟨hnodePadding.2, hnodeSpacing.2, hvirtualNodeWidth.2.le, hrankGap.2, hcomponentGap.2,
    hclusterPadding.2, hedgeLabelPadding.2⟩

/-- The parts of a graph are kept apart, and so are the frames of clusters and what is in them. -/
lemma Config.graph_gaps_nonneg [Lengths α] {c : Config α} (h : c.validate = .ok ()) :
    0 ≤ c.graph.componentGap ∧ 0 ≤ c.graph.clusterPadding := by
  have hrules := Config.graph_rules_hold h
  have hgap := hrules (.positive "graph.component_gap" c.graph.componentGap)
    (by simp [GraphConfig.rules])
  have hpadding := hrules (.nonneg "graph.cluster_padding" c.graph.clusterPadding)
    (by simp [GraphConfig.rules])
  exact ⟨Lengths.le_of_lt hgap.2, hpadding.2⟩

/-- The distances of a sequence diagram are lengths; what keeps rows and columns apart and the least
height of a bar are positive. -/
structure SequenceConfig.Sensible (c : SequenceConfig α) : Prop where
  participantPadding : 0 ≤ c.participantPadding
  participantSpacing : IsPositive c.participantSpacing
  eventSpacing : IsPositive c.eventSpacing
  messageLabelPadding : 0 ≤ c.messageLabelPadding
  selfMessageHeight : 0 ≤ c.selfMessageHeight
  activationMinHeight : IsPositive c.activationMinHeight
  notePadding : 0 ≤ c.notePadding
  blockHeaderHeight : 0 ≤ c.blockHeaderHeight
  dividerHeight : 0 ≤ c.dividerHeight
  delayHeight : 0 ≤ c.delayHeight

lemma Config.sensible_sequence [Lengths α] {c : Config α} (h : c.validate = .ok ()) :
    c.sequence.Sensible := by
  have hrules := Config.sequence_rules_hold h
  simp only [SequenceConfig.rules, List.forall_mem_append, List.forall_mem_cons, Rule.Holds,
    IsPositive, IsNonneg] at hrules
  obtain ⟨⟨⟨-, hparticipantPadding, hparticipantSpacing, heventSpacing, hlabelPadding, -⟩, -⟩, -,
    hselfHeight, -, -, -, hminHeight, hnotePadding, -, -, -, hheader, hdivider, hdelay, -⟩ := hrules
  exact ⟨hparticipantPadding.2, hparticipantSpacing, heventSpacing, hlabelPadding.2,
    Lengths.le_of_lt hselfHeight.2, hminHeight, hnotePadding.2,
    Lengths.le_of_lt hheader.2, Lengths.le_of_lt hdivider.2, Lengths.le_of_lt hdelay.2⟩

/-- Frames are not indented outward. -/
lemma Config.blockIndent_nonneg {c : Config α} (h : c.validate = .ok ()) :
    0 ≤ c.sequence.blockIndent :=
  (Config.sequence_rules_hold h (.nonneg "sequence.block_indent" c.sequence.blockIndent)
    (by simp [SequenceConfig.rules])).2

/-- The room around a sequence diagram and in its frames is not negative. -/
lemma Config.paddings_nonneg {c : Config α} (h : c.validate = .ok ()) :
    0 ≤ c.sequence.diagramPadding ∧ 0 ≤ c.sequence.blockPadding := by
  have hrules := Config.sequence_rules_hold h
  have hdiagram := hrules (.nonneg "sequence.diagram_padding" c.sequence.diagramPadding)
    (by simp [SequenceConfig.rules])
  have hblock := hrules (.nonneg "sequence.block_padding" c.sequence.blockPadding)
    (by simp [SequenceConfig.rules])
  exact ⟨hdiagram.2, hblock.2⟩

/-- What is drawn beside lifelines is not drawn backward, and bars have a width. -/
structure SequenceConfig.SensibleSides (c : SequenceConfig α) : Prop where
  selfMessageWidth : 0 ≤ c.selfMessageWidth
  stubLength : 0 ≤ c.stubLength
  activationWidth : 0 < c.activationWidth
  activationIndent : 0 ≤ c.activationIndent
  noteGap : 0 ≤ c.noteGap

lemma Config.sensible_sides [Lengths α] {c : Config α} (h : c.validate = .ok ()) :
    c.sequence.SensibleSides := by
  have hrules := Config.sequence_rules_hold h
  simp only [SequenceConfig.rules, List.forall_mem_append, List.forall_mem_cons, Rule.Holds,
    IsPositive, IsNonneg] at hrules
  obtain ⟨-, hselfWidth, -, hstub, hwidth, hindent, -, -, hgap, -⟩ := hrules
  exact ⟨Lengths.le_of_lt hselfWidth.2, Lengths.le_of_lt hstub.2, hwidth.2, hindent.2, hgap.2⟩

end Drafting
