-- The laws of exchanged references. Only the references of an entity count
-- for the exchange, two exchanges are one, and an exchange that goes from
-- reference to reference with a state comes to the exchange at once.
import BinaryAtlas.TypeGraph.Entity
import Mathlib.Data.List.Basic

namespace BinaryAtlas

/-! ## Exchanges at once -/

namespace Directive

variable {Ref : Type}

theorem map_congr {f g : Ref → Ref} {d : Directive Ref} (h : ∀ r ∈ d.target?, f r = g r) :
    d.map f = d.map g := by
  induction d with
  | pointsTo path target => simp [map, h target rfl]
  | readAs path target => simp [map, h target rfl]
  | lengthFrom member => rfl
  | child path directive ih => simp [map, ih h]

theorem map_map (f g : Ref → Ref) (d : Directive Ref) : (d.map f).map g = d.map (g ∘ f) := by
  induction d with
  | pointsTo path target => rfl
  | readAs path target => rfl
  | lengthFrom member => rfl
  | child path directive ih => simp [map, ih]

theorem map_id (d : Directive Ref) : d.map id = d := by
  induction d with
  | pointsTo path target => rfl
  | readAs path target => rfl
  | lengthFrom member => rfl
  | child path directive ih => simp [map, ih]

end Directive

namespace Member

theorem mapRefs_congr {f g : Slot → Slot} {m : Member} (h : ∀ r ∈ m.refs, f r = g r) :
    m.mapRefs f = m.mapRefs g := by
  have htype : f m.type = g m.type := h _ (by simp [refs])
  have hdirectives : m.directives.map (·.map f) = m.directives.map (·.map g) := by
    apply List.map_congr_left
    intro d hd
    apply Directive.map_congr
    intro r hr
    apply h
    exact List.mem_append_left _ (List.mem_filterMap.mpr ⟨d, hd, hr⟩)
  simp [mapRefs, htype, hdirectives]

theorem mapRefs_mapRefs (f g : Slot → Slot) (m : Member) :
    (m.mapRefs f).mapRefs g = m.mapRefs (g ∘ f) := by
  simp [mapRefs, Function.comp_def, Directive.map_map]

theorem mapRefs_id (m : Member) : m.mapRefs id = m := by
  have h : (fun d : Directive Slot => d.map id) = id := funext Directive.map_id
  simp [mapRefs, h]

end Member

namespace Layout

theorem mapRefs_congr {f g : Slot → Slot} {layout : Layout}
    (h : ∀ r ∈ layout.members.flatMap Member.refs, f r = g r) :
    layout.mapRefs f = layout.mapRefs g := by
  have hmembers : layout.members.map (·.mapRefs f) = layout.members.map (·.mapRefs g) := by
    apply List.map_congr_left
    intro m hm
    exact Member.mapRefs_congr fun r hr => h r (List.mem_flatMap.mpr ⟨m, hm, hr⟩)
  simp [mapRefs, hmembers]

theorem mapRefs_mapRefs (f g : Slot → Slot) (layout : Layout) :
    (layout.mapRefs f).mapRefs g = layout.mapRefs (g ∘ f) := by
  simp [mapRefs, Function.comp_def, Member.mapRefs_mapRefs]

theorem mapRefs_id (layout : Layout) : layout.mapRefs id = layout := by
  have h : (fun m : Member => m.mapRefs id) = id := funext Member.mapRefs_id
  simp [mapRefs, h]

end Layout

namespace Shape

/-- Two exchanges that agree on the references of a shape agree on it. -/
theorem mapRefs_congr {f g : Slot → Slot} {shape : Shape} (h : ∀ r ∈ shape.refs, f r = g r) :
    shape.mapRefs f = shape.mapRefs g := by
  cases shape with
  | struct layout => simp [mapRefs, Layout.mapRefs_congr h]
  | union layout => simp [mapRefs, Layout.mapRefs_congr h]
  | signature result parameters =>
    have hresult : f result = g result := h _ (by simp [refs])
    have hparameters : (parameters.map fun p => { p with type := f p.type }) =
        parameters.map fun p => { p with type := g p.type } := by
      apply List.map_congr_left
      intro p hp
      have := h p.type (List.mem_cons_of_mem _ (List.mem_map_of_mem hp))
      rw [this]
    simp only [mapRefs, hresult, hparameters]
  | typedef target => simp [mapRefs, h target (by simp [refs])]
  | pointer pointee => simp [mapRefs, h pointee (by simp [refs])]
  | array element count => simp [mapRefs, h element (by simp [refs])]
  | primitive size => rfl
  | enumeration size elements => rfl
  | string => rfl
  | placeholder => rfl

theorem mapRefs_mapRefs (f g : Slot → Slot) (shape : Shape) :
    (shape.mapRefs f).mapRefs g = shape.mapRefs (g ∘ f) := by
  cases shape <;> simp [mapRefs, Layout.mapRefs_mapRefs]

theorem mapRefs_id (shape : Shape) : shape.mapRefs id = shape := by
  cases shape <;> simp [mapRefs, Layout.mapRefs_id]

/-- An exchange that keeps each reference keeps the shape. -/
theorem mapRefs_eq_self {f : Slot → Slot} {shape : Shape} (h : ∀ r ∈ shape.refs, f r = r) :
    shape.mapRefs f = shape := by
  rw [mapRefs_congr (g := id) h, mapRefs_id]

@[simp]
theorem isPlaceholder_mapRefs (f : Slot → Slot) (shape : Shape) :
    (shape.mapRefs f).isPlaceholder = shape.isPlaceholder := by
  cases shape <;> rfl

end Shape

/-! ## Exchanges with a state

An exchange of one reference follows a plain one, `f`, in the states of `P`: it
gives what `f` gives, and the state becomes what `note` says. The exchange of
all references of an entity then does the same. -/

/-- The second of two steps goes on where the first one stopped. -/
theorem run_bind_of_run {State α β : Type} {first : StateM State α} {s s' : State} {a : α}
    (h : first.run s = (a, s')) (next : α → StateM State β) :
    (first >>= next).run s = (next a).run s' := by
  rw [StateT.run_bind, h]
  rfl

structure Follows {State : Type} (P : State → Prop) (step : Slot → StateM State Slot)
    (f : Slot → Slot) (note : State → Slot → State) : Prop where
  run : ∀ {s}, P s → ∀ r, (step r).run s = (f r, note s r)
  keeps : ∀ {s}, P s → ∀ r, P (note s r)

section

variable {State : Type} {P : State → Prop} {step : Slot → StateM State Slot} {f : Slot → Slot}
  {note : State → Slot → State}

theorem Follows.keeps_all (h : Follows P step f note) {s : State} (hs : P s) (rs : List Slot) :
    P (rs.foldl note s) := by
  induction rs generalizing s with
  | nil => exact hs
  | cons r rs ih => exact ih (h.keeps hs r)

/-- Parts one after the other, each of which follows a plain exchange. -/
theorem Follows.run_mapM {Part : Type} (h : Follows P step f note)
    {visit : Part → StateM State Part} {plain : Part → Part} {refs : Part → List Slot}
    (hvisit : ∀ part s, P s → (visit part).run s = (plain part, (refs part).foldl note s))
    (parts : List Part) {s : State} (hs : P s) :
    (parts.mapM visit).run s = (parts.map plain, (parts.flatMap refs).foldl note s) := by
  induction parts generalizing s with
  | nil => rfl
  | cons part parts ih =>
    have hrest := ih (h.keeps_all hs (refs part))
    rw [List.mapM_cons, run_bind_of_run (hvisit part s hs), run_bind_of_run hrest,
      List.flatMap_cons, List.foldl_append]
    rfl

theorem Follows.run_directive (h : Follows P step f note) (d : Directive Slot) {s : State}
    (hs : P s) : (d.mapM step).run s = (d.map f, d.target?.toList.foldl note s) := by
  induction d with
  | pointsTo path target =>
    rw [Directive.mapM, run_bind_of_run (h.run hs target)]
    rfl
  | readAs path target =>
    rw [Directive.mapM, run_bind_of_run (h.run hs target)]
    rfl
  | lengthFrom member => rfl
  | child path directive ih =>
    rw [Directive.mapM, run_bind_of_run ih]
    rfl

theorem Follows.run_member (h : Follows P step f note) (m : Member) {s : State} (hs : P s) :
    (m.mapRefsM step).run s = (m.mapRefs f, m.refs.foldl note s) := by
  have hdirectives := h.run_mapM (fun d s hs => h.run_directive d hs) m.directives hs
  have htype := h.run (h.keeps_all hs (m.directives.flatMap (·.target?.toList))) m.type
  rw [Member.mapRefsM, run_bind_of_run hdirectives, run_bind_of_run htype, Member.refs,
    List.foldl_append, ← List.filterMap_eq_flatMap_toList]
  rfl

theorem Follows.run_layout (h : Follows P step f note) (layout : Layout) {s : State} (hs : P s) :
    (layout.mapRefsM step).run s =
      (layout.mapRefs f, (layout.members.flatMap Member.refs).foldl note s) := by
  have hmembers := h.run_mapM (fun m s hs => h.run_member m hs) layout.members hs
  rw [Layout.mapRefsM, run_bind_of_run hmembers]
  rfl

theorem Follows.run_parameter (h : Follows P step f note) (p : Parameter) {s : State} (hs : P s) :
    (p.mapRefsM step).run s = ({ p with type := f p.type }, [p.type].foldl note s) := by
  rw [Parameter.mapRefsM, run_bind_of_run (h.run hs p.type)]
  rfl

/-- The references of a shape one by one come to the plain exchange. -/
theorem Follows.run_shape (h : Follows P step f note) (shape : Shape) {s : State} (hs : P s) :
    (shape.mapRefsM step).run s = (shape.mapRefs f, shape.refs.foldl note s) := by
  cases shape with
  | struct layout =>
    rw [Shape.mapRefsM, run_bind_of_run (h.run_layout layout hs)]
    rfl
  | union layout =>
    rw [Shape.mapRefsM, run_bind_of_run (h.run_layout layout hs)]
    rfl
  | signature result parameters =>
    have hparameters := h.run_mapM (fun p s hs => h.run_parameter p hs) parameters
      (h.keeps hs result)
    rw [Shape.mapRefsM, run_bind_of_run (h.run hs result), run_bind_of_run hparameters,
      ← List.map_eq_flatMap]
    rfl
  | typedef target =>
    rw [Shape.mapRefsM, run_bind_of_run (h.run hs target)]
    rfl
  | pointer pointee =>
    rw [Shape.mapRefsM, run_bind_of_run (h.run hs pointee)]
    rfl
  | array element count =>
    rw [Shape.mapRefsM, run_bind_of_run (h.run hs element)]
    rfl
  | primitive size => rfl
  | enumeration size elements => rfl
  | string => rfl
  | placeholder => rfl

end

end BinaryAtlas
