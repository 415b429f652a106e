-- The laws of arrays in names. Bounds behind a name are taken off from the left,
-- one request for each; so the first bound is that of the outermost array, and
-- the innermost element is the type of the name itself.
import BinaryAtlas.Proofs.Numerals
import BinaryAtlas.Proofs.Sizes
import BinaryAtlas.Proofs.SpelledTypes

namespace BinaryAtlas

/-! ## Trimmed text -/

namespace Text

theorem trim_eq_self_iff {cs : List Char} : trim cs = cs ↔
    cs.dropWhile isBlank = cs ∧ cs.reverse.dropWhile isBlank = cs.reverse := by
  unfold trim dropTrailing
  constructor
  · intro h
    have hstart : cs.dropWhile isBlank = cs := by
      have hfront := List.dropWhile_sublist isBlank (l := cs)
      have hback := List.dropWhile_sublist isBlank (l := (cs.dropWhile isBlank).reverse)
      apply hfront.eq_of_length_le
      rw [← h, List.length_reverse]
      simpa [h] using hback.length_le
    rw [hstart] at h
    exact ⟨hstart, List.reverse_eq_iff.mp h⟩
  · rintro ⟨hstart, hend⟩
    rw [hstart, hend, List.reverse_reverse]

theorem dropWhile_append_eq_self {p : Char → Bool} {cs after : List Char}
    (h : cs.dropWhile p = cs) (hafter : after.dropWhile p = after) :
    (cs ++ after).dropWhile p = cs ++ after := by
  rw [List.dropWhile_append, h, hafter]
  split
  · rename_i hnil
    rw [List.isEmpty_iff.mp hnil, List.nil_append]
  · rfl

theorem trim_of_forall {cs : List Char} (h : ∀ c ∈ cs, isBlank c = false) : trim cs = cs := by
  have hkeep {cs : List Char} (h : ∀ c ∈ cs, isBlank c = false) : cs.dropWhile isBlank = cs := by
    cases cs with
    | nil => rfl
    | cons c cs => exact List.dropWhile_cons_of_neg (by simp [h c List.mem_cons_self])
  exact trim_eq_self_iff.mpr ⟨hkeep h, hkeep fun c hc => h c (List.mem_reverse.mp hc)⟩

theorem isBlank_of_isDigit {c : Char} (h : c.isDigit = true) : isBlank c = false := by
  obtain ⟨hlow, hhigh⟩ : 48 ≤ c.toNat ∧ c.toNat ≤ 57 := by
    simpa [Char.isDigit, UInt32.le_iff_toNat_le] using h
  simp only [isBlank, Bool.or_eq_false_iff, Bool.and_eq_false_iff, decide_eq_false_iff_not,
    beq_eq_false_iff_ne]
  omega

/-- Trimmed texts put together are trimmed. -/
theorem trim_append_eq_self {cs after : List Char} (h : trim cs = cs)
    (hafter : trim after = after) : trim (cs ++ after) = cs ++ after := by
  rw [trim_eq_self_iff] at h hafter ⊢
  rw [List.reverse_append]
  exact ⟨dropWhile_append_eq_self h.1 hafter.1, dropWhile_append_eq_self hafter.2 h.2⟩

end Text

/-! ## Bounds -/

/-- The bound of an array in decimal digits, between brackets. -/
def TypeName.boundChars (bound : UInt32) : List Char :=
  '[' :: (Nat.toDigits 10 bound.toNat ++ [']'])

namespace TypeKey

/-- The key with bounds written behind its name. -/
def withBounds (key : TypeKey) (bounds : List UInt32) : TypeKey :=
  key.withName (.ofList (key.name.toList ++ bounds.flatMap TypeName.boundChars))

@[simp]
theorem withBounds_nil (key : TypeKey) : key.withBounds [] = key := by
  simp [withBounds, withName]

theorem trim_boundChars (bound : UInt32) :
    Text.trim (TypeName.boundChars bound) = TypeName.boundChars bound := by
  rw [Text.trim_eq_self_iff]
  simp [TypeName.boundChars, Text.isBlank]

theorem trim_flatMap_boundChars (bounds : List UInt32) :
    Text.trim (bounds.flatMap TypeName.boundChars) = bounds.flatMap TypeName.boundChars := by
  induction bounds with
  | nil => rfl
  | cons bound bounds ih => exact Text.trim_append_eq_self (trim_boundChars bound) ih

theorem exists_flatMap_boundChars (bound : UInt32) (bounds : List UInt32) :
    ∃ front, (bound :: bounds).flatMap TypeName.boundChars = front ++ [']'] := by
  induction bounds generalizing bound with
  | nil => exact ⟨'[' :: Nat.toDigits 10 bound.toNat, by simp [TypeName.boundChars]⟩
  | cons next bounds ih =>
    obtain ⟨front, hfront⟩ := ih next
    refine ⟨TypeName.boundChars bound ++ front, ?_⟩
    rw [List.flatMap_cons, hfront, List.append_assoc]

variable {key : TypeKey}

/-- The first bound comes off first. -/
theorem around_withBounds (htrim : Text.trim key.name.toList = key.name.toList)
    (hopen : '[' ∉ key.name.toList) (bound : UInt32) (bounds : List UInt32) :
    (key.withBounds (bound :: bounds)).Around (key.withBounds bounds) (some bound) := by
  have hdigits : ∀ c ∈ Nat.toDigits 10 bound.toNat, c.isDigit = true :=
    fun c => Nat.isDigit_of_mem_toDigits (by decide) (by decide)
  have hcut : (key.withBounds (bound :: bounds)).name.toList = key.name.toList ++
      '[' :: (Nat.toDigits 10 bound.toNat ++ ']' :: bounds.flatMap TypeName.boundChars) := by
    simp [withBounds, withName, TypeName.boundChars]
  -- The name ends with a bracket, so it is that of no pointer.
  have hstar : ∀ front, (key.withBounds (bound :: bounds)).name.toList ≠ front ++ ['*'] := by
    intro front hstar
    obtain ⟨rest, hrest⟩ := exists_flatMap_boundChars bound bounds
    have hname : (key.withBounds (bound :: bounds)).name.toList =
        (key.name.toList ++ rest) ++ [']'] := by
      rw [List.append_assoc, ← hrest, withBounds, withName, String.toList_ofList]
    rw [hname] at hstar
    have hlast := (List.append_inj' hstar rfl).2
    cases hlast
  have hclose : ']' ∉ Nat.toDigits 10 bound.toNat := fun hmem =>
    absurd (hdigits _ hmem) (by decide)
  have hcount : Text.word? 10 (Text.trim (Nat.toDigits 10 bound.toNat)) = some bound := by
    rw [Text.trim_of_forall fun c hc => Text.isBlank_of_isDigit (hdigits c hc)]
    exact Text.word?_toDigits (by decide) (by decide) bound
  have haround := Around.array hstar hcut hopen hclose hcount
  rw [Text.trim_append_eq_self htrim (trim_flatMap_boundChars bounds)] at haround
  exact haround

theorem count_of_around (hopen : '[' ∉ key.name.toList) {inner : TypeKey} {count : Option UInt32}
    (h : key.Around inner count) : count = none := by
  cases h with
  | text => rfl
  | pointer => rfl
  | array _ hcut => simp [hcut] at hopen

end TypeKey

/-! ## Arrays of arrays -/

namespace TypeStore

/-- The slot holds an array of the first bound, whose elements are arrays of the
second bound, and so on, down to the type of the last slot. Each array has the
key with the bounds that are left. -/
inductive Nested (store : TypeStore) (key : TypeKey) : Slot → List UInt32 → Slot → Prop
  | nil (slot : Slot) : Nested store key slot [] slot
  | cons {slot element last : Slot} {bound : UInt32} {bounds : List UInt32} :
      store.entity? slot =
        some { key := key.withBounds (bound :: bounds), shape := .array element bound } →
      Nested store key element bounds last → Nested store key slot (bound :: bounds) last

theorem Nested.way {store : TypeStore} {key : TypeKey} {slot last : Slot} {bounds : List UInt32}
    (h : Nested store key slot bounds last) : Way store slot bounds.length bounds last := by
  induction h with
  | nil slot => exact .here slot
  | cons hslot _ ih => exact .array hslot ih

section

open Declaration (builtinKeys)

variable {pointerSize : UInt32} {asked : List TypeKey} {key : TypeKey} {slot : Slot}

/-- After requests, a key stands for a builtin type or for what it spells. -/
theorem told_of_lookup (h : ((withBuiltins pointerSize).askAll asked).lookup key = some slot) :
    ∃ e, ((withBuiltins pointerSize).askAll asked).entity? slot = some e ∧ e.key = key ∧
      (e ∈ Builtin.entities pointerSize ∨
        key ∉ builtinKeys ∧ SpelledAs ((withBuiltins pointerSize).askAll asked) key e.shape) := by
  have hstands := (Declaration.standing_withBuiltins pointerSize).asks asked
  obtain ⟨e, he, rfl⟩ := hstands.sound.indexed.registered h
  have hby := byKey?_eq_some.mpr ⟨slot, h, he⟩
  exact ⟨e, he, rfl, (hstands.undeclared _ e hby rfl).imp_left Declaration.mem_entities_of_byKey?⟩

/-- After requests, a key with bounds stands for arrays in each other. -/
theorem nested_of_lookup (htrim : Text.trim key.name.toList = key.name.toList)
    (hopen : '[' ∉ key.name.toList) {bounds : List UInt32}
    (h : ((withBuiltins pointerSize).askAll asked).lookup (key.withBounds bounds) = some slot) :
    ∃ base, ((withBuiltins pointerSize).askAll asked).lookup key = some base ∧
      Nested ((withBuiltins pointerSize).askAll asked) key slot bounds base := by
  induction bounds generalizing slot with
  | nil =>
    rw [TypeKey.withBounds_nil] at h
    exact ⟨slot, h, .nil slot⟩
  | cons bound bounds ih =>
    have haround := TypeKey.around_withBounds htrim hopen bound bounds
    have hlayered := layered_askAll (indexed_withBuiltins pointerSize)
      (layered_withBuiltins pointerSize) asked
    obtain ⟨⟨name, shape⟩, he, rfl, hbuiltin | ⟨-, hspelled⟩⟩ := told_of_lookup h
    · have hnone := Declaration.inner?_of_mem_builtinKeys (key_mem_builtinKeys hbuiltin)
      exact absurd haround (TypeKey.inner?_eq_none.mp hnone _ _)
    · obtain ⟨element, rfl, helement⟩ := (spelledAs_around haround).mp hspelled
      obtain ⟨base, hbase, hnested⟩ := ih (hlayered.lookup_of_keyAt? helement)
      exact ⟨base, hbase, .cons he hnested⟩

/-! ## Sizes -/

/-- The size of what requests make for a name without brackets: that of the builtin
type of the key, or that of a pointer, or nothing. -/
def plainSize? (pointerSize : UInt32) (key : TypeKey) : Option UInt32 :=
  match (Builtin.entities pointerSize).find? (·.key == key) with
  | some e => e.shape.ownSize? pointerSize
  | none => if key.inner? = none then some 0 else some pointerSize

theorem plainSize?_of_mem_entities {e : Entity} (h : e ∈ Builtin.entities pointerSize) :
    plainSize? pointerSize e.key = e.shape.ownSize? pointerSize := by
  unfold plainSize?
  split
  · rename_i other hfound
    have hkey : other.key = e.key := by simpa using List.find?_some hfound
    rw [eq_of_mem_entities (List.mem_of_find?_eq_some hfound) h hkey]
  · rename_i hnone
    exact absurd (beq_self_eq_true e.key) (List.find?_eq_none.mp hnone e h)

theorem plainSize?_of_not_mem (h : key ∉ builtinKeys) :
    plainSize? pointerSize key = if key.inner? = none then some 0 else some pointerSize := by
  unfold plainSize?
  split
  · rename_i e hfound
    obtain rfl : e.key = key := by simpa using List.find?_some hfound
    exact absurd (key_mem_builtinKeys (List.mem_of_find?_eq_some hfound)) h
  · rfl

/-- The size of a name without brackets is told by the name. -/
theorem sizeWithin_of_plain (hopen : '[' ∉ key.name.toList)
    (h : ((withBuiltins pointerSize).askAll asked).lookup key = some slot) (hops : Nat) :
    ((withBuiltins pointerSize).askAll asked).sizeWithin hops slot =
      plainSize? pointerSize key := by
  have hpointers : ((withBuiltins pointerSize).askAll asked).pointerSize = pointerSize :=
    ((Declaration.standing_withBuiltins pointerSize).asks asked).pointers
  obtain ⟨e, he, rfl, hbuiltin | ⟨hnot, hspelled⟩⟩ := told_of_lookup h
  · rw [plainSize?_of_mem_entities hbuiltin]
    rcases shape_of_mem_entities hbuiltin with ⟨-, hshape⟩ | ⟨-, size, hshape⟩
    · rw [(Ends.text he hshape).sizeWithin, hshape, Shape.ownSize?]
    · have hsize : e.shape.ownSize? pointerSize = some size := by rw [hshape, Shape.ownSize?]
      rw [hsize, (Ends.sized he (hpointers.symm ▸ hsize)).sizeWithin]
  · rw [plainSize?_of_not_mem hnot]
    cases hinner : e.key.inner? with
    | none =>
      have hshape := (spelledAs_plain (TypeKey.inner?_eq_none.mp hinner)).mp hspelled
      exact (Ends.sized he (by rw [hshape, Shape.ownSize?])).sizeWithin hops
    | some found =>
      have haround := TypeKey.inner?_eq_some.mp hinner
      rw [TypeKey.count_of_around hopen haround] at haround
      obtain ⟨target, hshape, -⟩ := (spelledAs_around haround).mp hspelled
      have hsize : e.shape.ownSize? ((withBuiltins pointerSize).askAll asked).pointerSize =
          some pointerSize := by
        rw [hshape, Shape.around, Shape.ownSize?, hpointers]
      exact (Ends.sized he hsize).sizeWithin hops

end

/-- After any requests, a request for a trimmed name without brackets, with bounds
written behind it, answers an array of so many arrays of so many and so on, in the
order of the bounds, and the innermost elements are of the type of the name. If
that type has a size and there are at most 64 bounds, the size of the array is that
size times all bounds, or the largest word if that does not fit. -/
theorem bounds_make_arrays_of_arrays (pointerSize : UInt32) (asked : List TypeKey)
    {key : TypeKey} (htrim : Text.trimmed key.name = key.name) (hopen : '[' ∉ key.name.toList)
    (bounds : List UInt32) :
    let store := (withBuiltins pointerSize).askAll asked
    let plain := store.get key
    let answer := store.get (key.withBounds bounds)
    ∃ base, answer.2.get key = (base, answer.2) ∧ Nested answer.2 key answer.1 bounds base ∧
      ∀ size, plain.2.sizeOf? plain.1 = some size → bounds.length ≤ 64 →
        answer.2.sizeOf? answer.1 =
          some (.ofNat (min (UInt32.size - 1) (size.toNat * (bounds.map UInt32.toNat).prod))) := by
  intro store plain answer
  have htrim : Text.trim key.name.toList = key.name.toList := by
    rw [← String.ofList_inj, String.ofList_toList]
    exact htrim
  have hplain : (withBuiltins pointerSize).askAll (asked ++ [key]) = plain.2 := List.foldl_append
  have hanswer : (withBuiltins pointerSize).askAll (asked ++ [key.withBounds bounds]) = answer.2 :=
    List.foldl_append
  have hlookup := (get_gets store key).lookup
  have hbounds := (get_gets store (key.withBounds bounds)).lookup
  change plain.2.lookup key = some plain.1 at hlookup
  change answer.2.lookup (key.withBounds bounds) = some answer.1 at hbounds
  rw [← hplain] at hlookup
  rw [← hanswer] at hbounds ⊢
  obtain ⟨base, hbase, hnested⟩ := nested_of_lookup htrim hopen hbounds
  refine ⟨base, get_of_lookup hbase, hnested, fun size hsize hle => ?_⟩
  rw [← hplain, sizeOf?, sizeWithin_of_plain hopen hlookup] at hsize
  obtain ⟨more, hmore⟩ := Nat.exists_eq_add_of_le' hle
  rw [sizeOf?, maxHops, hmore, hnested.way.sizeWithin, sizeWithin_of_plain hopen hbase, hsize,
    Option.map_some, arraySize]

/-- Bounds behind a pointer, the inner ones of which are registered already. -/
theorem bounds_behind_a_pointer_make_arrays :
    Text.trimmed "byte *" = "byte *" ∧ '[' ∉ "byte *".toList ∧
    (TypeKey.root "byte *").withBounds [3, 5] = .root "byte *[3][5]" ∧
    let store := (withBuiltins 4).askAll [.root "byte *[5]"]
    let answer := store.get (.root "byte *[3][5]")
    (∃ base, answer.2.get (.root "byte *") = (base, answer.2) ∧
      Nested answer.2 (.root "byte *") answer.1 [3, 5] base) ∧
    answer.2.sizeOf? answer.1 = some 60 := by
  have htrim : Text.trimmed "byte *" = "byte *" := by decide +kernel
  have hopen : '[' ∉ "byte *".toList := by decide +kernel
  have hname : (TypeKey.root "byte *").withBounds [3, 5] = .root "byte *[3][5]" := by
    decide +kernel
  have hmain := @bounds_make_arrays_of_arrays 4 [.root "byte *[5]"] (.root "byte *") htrim hopen
    [3, 5]
  rw [hname] at hmain
  obtain ⟨base, hbase, hnested, hsize⟩ := hmain
  refine ⟨htrim, hopen, hname, ⟨base, hbase, hnested⟩, ?_⟩
  rw [hsize 4 (by decide +kernel) (by decide)]
  decide +kernel

end TypeStore

end BinaryAtlas
