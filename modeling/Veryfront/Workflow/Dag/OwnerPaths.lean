import Veryfront.Lib.Framing
import Veryfront.Lib.JoinedSegments
import Veryfront.Utils.Hex

/-!
# Owner paths of nested sub-workflows

The states of a sub-workflow are owned by the chain of nodes that leads to it, which is written down as a path. Who owns
a state inside which sub-workflow is decided by the texts of the paths.
-/

namespace Veryfront.Workflow

open Lib

/-- Any code units, surrogates that stand alone included. -/
structure OwnerNodeId where
  units : List UInt16
  nonempty : units ≠ []
deriving DecidableEq

def ownerSeparator : Nat := 47

def encodeCodeUnit (codeUnit : UInt16) : Text := padStart (toHex codeUnit.toNat) 4 48

def encodeSubWorkflowOwnerSegment (nodeId : OwnerNodeId) : Text :=
  nodeId.units.foldl (fun encoded codeUnit => encoded ++ encodeCodeUnit codeUnit) []

def subWorkflowOwnerPath (parentPath : Text) (nodeId : OwnerNodeId) : Text :=
  let segment := encodeSubWorkflowOwnerSegment nodeId
  if parentPath ≠ [] then parentPath ++ ownerSeparator :: segment else segment

def isSubWorkflowDescendant (candidate parent : Text) : Bool :=
  candidate = parent || (parent ++ [ownerSeparator]).isPrefixOf candidate

def ownerPath (chain : List OwnerNodeId) : Text := chain.foldl subWorkflowOwnerPath []

/-! ## Segments -/

theorem encodeCodeUnit_eq (codeUnit : UInt16) : encodeCodeUnit codeUnit = hexDigits lowerHex codeUnit.toNat :=
  padStart_toHex codeUnit.toNat_lt

theorem length_encodeCodeUnit (codeUnit : UInt16) : (encodeCodeUnit codeUnit).length = 4 := by
  rw [encodeCodeUnit_eq]
  rfl

theorem encodeCodeUnit_injective : Function.Injective encodeCodeUnit := by
  intro a b h
  rw [encodeCodeUnit_eq, encodeCodeUnit_eq] at h
  have hvalue := parseHex_hexDigits (fun _ => hexDigit_lowerHex) a.toNat_lt
  rw [h, parseHex_hexDigits (fun _ => hexDigit_lowerHex) b.toNat_lt] at hvalue
  exact UInt16.toNat_inj.mp hvalue.symm

theorem encodeSubWorkflowOwnerSegment_eq (nodeId : OwnerNodeId) :
    encodeSubWorkflowOwnerSegment nodeId = nodeId.units.flatMap encodeCodeUnit := by
  rw [encodeSubWorkflowOwnerSegment, List.flatMap_eq_foldl]

theorem length_encodeSubWorkflowOwnerSegment (nodeId : OwnerNodeId) :
    (encodeSubWorkflowOwnerSegment nodeId).length = nodeId.units.length * 4 := by
  simp [encodeSubWorkflowOwnerSegment_eq, List.length_flatMap, length_encodeCodeUnit]

theorem encodeSubWorkflowOwnerSegment_injective : Function.Injective encodeSubWorkflowOwnerSegment := by
  intro a b h
  -- Of a fixed width, the codes say how many units there are, and then which.
  have hwidth := congrArg List.length h
  rw [length_encodeSubWorkflowOwnerSegment, length_encodeSubWorkflowOwnerSegment] at hwidth
  have hlength : a.units.length = b.units.length := by omega
  have hunit : SelfDelimiting (fun _ => True) encodeCodeUnit :=
    .of_width length_encodeCodeUnit fun _ _ _ _ hcode => encodeCodeUnit_injective hcode
  rw [encodeSubWorkflowOwnerSegment_eq, encodeSubWorkflowOwnerSegment_eq] at h
  have hunits := (hunit.flatMap hlength (fun _ _ => trivial) (fun _ _ => trivial) (congrArg (· ++ []) h)).1
  cases a
  cases b
  cases hunits
  rfl

theorem separator_notMem_segment (nodeId : OwnerNodeId) : ownerSeparator ∉ encodeSubWorkflowOwnerSegment nodeId := by
  rw [encodeSubWorkflowOwnerSegment_eq]
  intro hmem
  obtain ⟨codeUnit, -, hdigit⟩ := List.mem_flatMap.mp hmem
  have hlower : ∀ digit, ownerSeparator ≠ lowerHex digit := by
    intro digit
    rw [ownerSeparator, lowerHex]
    split <;> omega
  simp [encodeCodeUnit_eq, hexDigits, hlower] at hdigit

def ownerCode : SegmentCode OwnerNodeId Nat where
  segment := encodeSubWorkflowOwnerSegment
  separator := ownerSeparator
  injective := encodeSubWorkflowOwnerSegment_injective
  separated := separator_notMem_segment

/-! ## Paths -/

theorem segment_ne_nil (nodeId : OwnerNodeId) : encodeSubWorkflowOwnerSegment nodeId ≠ [] := by
  have hlength := length_encodeSubWorkflowOwnerSegment nodeId
  have hunits := List.length_pos_iff.mpr nodeId.nonempty
  rw [← List.length_pos_iff]
  omega

theorem ownerPath_eq_path {chain : List OwnerNodeId} (h : chain ≠ []) : ownerPath chain = ownerCode.path chain := by
  induction chain using List.reverseRecOn with
  | nil => exact absurd rfl h
  | append_singleton chain nodeId ih =>
    rw [ownerPath, List.foldl_append, List.foldl_cons, List.foldl_nil, ← ownerPath]
    by_cases hchain : chain = []
    · subst hchain
      exact (ownerCode.path_singleton nodeId).symm
    · have hparent : ownerPath chain ≠ [] := by
        obtain ⟨first, rest, rfl⟩ := List.exists_cons_of_ne_nil hchain
        obtain ⟨unit, units, hsegment⟩ := List.exists_cons_of_ne_nil (segment_ne_nil first)
        rw [ih hchain, SegmentCode.path, List.map_cons, show ownerCode.segment first = unit :: units from hsegment,
          List.intercalate_cons_cons_left]
        exact List.cons_ne_nil _ _
      rw [subWorkflowOwnerPath, if_pos hparent, ih hchain, ownerCode.path_append hchain (List.cons_ne_nil _ _),
        ownerCode.path_singleton]
      rfl

/-- Paths are equal only for the same chain, and a chain is inside another one if and only if its path is a descendant. -/
theorem ownerPath_faithful {chain parent : List OwnerNodeId} (h : chain ≠ []) (hparent : parent ≠ []) :
    (ownerPath chain = ownerPath parent → chain = parent) ∧
      (isSubWorkflowDescendant (ownerPath chain) (ownerPath parent) = true ↔ parent <+: chain) := by
  rw [ownerPath_eq_path h, ownerPath_eq_path hparent, isSubWorkflowDescendant, Bool.or_eq_true, decide_eq_true_eq,
    List.isPrefixOf_iff_prefix]
  exact ⟨(ownerCode.path_inj h hparent).mp, ownerCode.path_prefix_iff h hparent⟩

theorem ownerPath_faithful_nested :
    isSubWorkflowDescendant (ownerPath [⟨[0x2F, 0xD800], by decide⟩, ⟨[0x30], by decide⟩])
      (ownerPath [⟨[0x2F, 0xD800], by decide⟩]) = true :=
  (ownerPath_faithful (List.cons_ne_nil _ _) (List.cons_ne_nil _ _)).2.mpr (List.prefix_append _ _)

end Veryfront.Workflow
