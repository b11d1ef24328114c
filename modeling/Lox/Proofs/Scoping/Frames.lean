/-
**The frames of a site are what stands around it.**

* `Part.frame?` — the frame in which the parts of a block or of a body stand.
* `Site.frames_of_child` — the frames of a site right within another one.
* `Within.frames_suffix` — deeper sites have more frames, and keep those from outside.
* `Within.frames_iff` — the frames of a site are the blocks and the bodies around it, innermost
  first, and each of them stands in the frames that come after it.
-/

import Lox.Proofs.Scoping.Site

namespace Lox

/-- The frame in which the parts of this part stand, if it opens a scope. -/
def Part.frame? : Part → Option Frame
  | .statement (.block forms) => some (.block forms)
  | .function kind body => some (.function kind body)
  | _ => none

@[simp] theorem Frame.frame?_part (frame : Frame) : frame.part.frame? = some frame := by
  cases frame <;> rfl

theorem Part.eq_of_frame? {part : Part} {frame : Frame} (opens : part.frame? = some frame) :
    part = frame.part := by
  unfold Part.frame? at opens
  split at opens
  · obtain rfl := Option.some.inj opens
    rfl
  · obtain rfl := Option.some.inj opens
    rfl
  · cases opens

/-- **A block or a body puts itself in front of the frames around it; nothing else does.** -/
theorem Site.frames_of_child {site child : Site} (isChild : child ∈ site.children) :
    child.frames = site.part.frame?.toList ++ site.frames := by
  obtain ⟨part, frames, walk⟩ := site
  cases part with
  | expression value =>
    cases value <;> simp [children, Expr.sites] at isChild <;> grind [Part.frame?]
  | arguments values =>
    cases values <;> simp [children] at isChild
    grind [Part.frame?]
  | statement form =>
    cases form with
    | var _ initializer =>
      cases initializer <;> simp [children, Stmt.sites] at isChild
      grind [Part.frame?]
    | «if» _ _ no =>
      cases no <;> simp [children, Stmt.sites] at isChild <;> grind [Part.frame?]
    | «return» _ value =>
      cases value <;> simp [children, Stmt.sites] at isChild
      grind [Part.frame?]
    | _ => simp [children, Stmt.sites] at isChild; grind [Part.frame?]
  | statements forms =>
    cases forms <;> simp [children] at isChild
    grind [Part.frame?]
  | function kind body =>
    obtain ⟨parameters, forms⟩ := body
    obtain rfl := List.mem_singleton.mp isChild
    rfl
  | target => simp [children] at isChild

namespace Within

variable {root site : Site}

theorem frames_suffix (within : Within root site) : root.frames <:+ site.frames := by
  induction within with
  | refl => exact List.suffix_refl _
  | tail _ isChild ih =>
    rw [Site.frames_of_child isChild]
    exact ih.trans (List.suffix_append _ _)

/-- **The frames of a site are the blocks and the bodies around it.** -/
theorem frames_iff (within : Within root site) (outermost : root.frames = []) {frame : Frame}
    {outer : List Frame} :
    frame :: outer <:+ site.frames ↔
      ∃ around child, Within root around ∧ around.part = frame.part ∧ around.frames = outer ∧
        child ∈ around.children ∧ Within child site := by
  constructor
  · induction within with
    | refl =>
      intro suffix
      rw [outermost, List.suffix_nil] at suffix
      cases suffix
    | @tail site child within isChild ih =>
      intro suffix
      rw [Site.frames_of_child isChild] at suffix
      cases opens : site.part.frame? with
      | none =>
        rw [opens] at suffix
        obtain ⟨around, first, toAround, isFrame, frames, isFirst, toSite⟩ := ih suffix
        exact ⟨around, first, toAround, isFrame, frames, isFirst, toSite.step isChild⟩
      | some opened =>
        rw [opens] at suffix
        rcases List.suffix_cons_iff.mp suffix with here | further
        · obtain ⟨rfl, rfl⟩ := List.cons.inj here
          exact ⟨site, child, within, Part.eq_of_frame? opens, rfl, isChild, .refl child⟩
        · obtain ⟨around, first, toAround, isFrame, frames, isFirst, toSite⟩ := ih further
          exact ⟨around, first, toAround, isFrame, frames, isFirst, toSite.step isChild⟩
  · rintro ⟨around, child, -, isFrame, rfl, isChild, toSite⟩
    have frames : child.frames = frame :: around.frames := by
      rw [Site.frames_of_child isChild, isFrame, Frame.frame?_part]
      rfl
    rw [← frames]
    exact toSite.frames_suffix

end Within

end Lox
