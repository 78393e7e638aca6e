import MailMerge.Proofs.Storage.Frame
/-!
# Ways that do not depend on what changes

A path means a place firmly when it means it whatever happens at some other places. Paths without links
mean the places of their names, and depend on nothing else.

* `IsPlain.meansFirmly_of_disjoint`: a path without links that leads out of a directory does not depend
  on what is in it.
-/
namespace MailMerge.FileSystem

/-- Whether a place is at or below the directory that a path means. -/
def Inside (fs : FileSystem) (p : Path) (q : Place) : Prop :=
  ∃ r, fs.MeansDirectory p r ∧ r <+: q

/-- Whether a path means the same place whatever happens at the places of a set. -/
def MeansFirmly (fs : FileSystem) (p : Path) (q : Place) (loose : Place → Prop) : Prop :=
  ∀ fs' : FileSystem, fs'.current = fs.current →
    (∀ r node, fs.get? r = some node → ¬ loose r → fs'.get? r = some node) →
    fs'.locate true p.toText = .ok q

/-- Whether a path leads from the root through directories only. -/
structure IsPlain (fs : FileSystem) (p : Path) : Prop where
  clean : p.IsClean
  absolute : p.isAbsolute = true
  no_null : '\x00' ∉ p.toText
  short : Text.byteLength p.toText ≤ maxPath
  steps : ∀ n ∈ p.names, IsStep n
  chain : fs.Chain p.names

section
variable {fs : FileSystem} {p : Path}

/-- The way of a path without links leads through its own names only. -/
theorem IsPlain.meansFirmly (h : fs.IsPlain p) {loose : Place → Prop}
    (hloose : ∀ q, q <+: p.names → ¬ loose q) : fs.MeansFirmly p p.names loose := by
  intro fs' _ hkept
  have hchain : fs'.Chain ([] ++ p.names) := by
    intro q hq
    obtain ⟨t, ht⟩ := h.chain q hq
    exact ⟨t, hkept q _ ht (hloose q hq)⟩
  have hleads : Leads fs' true maxLinks ([] ++ p.names) [] p.names := .done
  refine (locate_toText h.clean).2 ⟨h.no_null, h.short, ?_⟩
  rw [if_pos h.absolute]
  simpa using leads_of_chain h.steps hchain hleads

theorem IsPlain.meansDirectory (h : fs.IsPlain p) : fs.MeansDirectory p p.names :=
  ⟨h.meansFirmly (fun _ _ => id) fs rfl fun _ _ hr _ => hr, h.chain.isDirectory⟩

/-- A path without links that leads out of another one depends on nothing in that, and on no name in
the directory that it means. -/
theorem IsPlain.meansFirmly_of_disjoint (h : fs.IsPlain p) {p' : Path}
    (hout : ¬ fs.Inside p' p.names) (n : Text) :
    fs.MeansFirmly p p.names fun q => fs.Inside p' q ∨ q = p.names ++ [n] := by
  refine h.meansFirmly ?_
  rintro q hq (⟨r, hm, hr⟩ | rfl)
  · exact hout ⟨r, hm, hr.trans hq⟩
  · have hlength := hq.length_le
    rw [List.length_append, List.length_singleton] at hlength
    omega

end

end MailMerge.FileSystem
