import Mathlib.Data.List.Basic

/-! Entities in a text: a mark and a name that stand for one item. Names contain no
mark and none begins another, so a text is read in one way, and replacing one entity
after the other is the same as one pass over all of them. -/
namespace SjmbSlack.Entities

variable {α : Type*} [DecidableEq α]

/-- A replacement of a pattern, not overlapping, from the left; some items are
skipped first. -/
def replaceFrom (pattern substitute : List α) : Nat → List α → List α
  | _, [] => []
  | skip + 1, _ :: rest => replaceFrom pattern substitute skip rest
  | 0, item :: rest =>
      if pattern.isPrefixOf (item :: rest) then
        substitute ++ replaceFrom pattern substitute (pattern.length - 1) rest
      else item :: replaceFrom pattern substitute 0 rest

def replace (pattern substitute text : List α) : List α := replaceFrom pattern substitute 0 text

structure Entity (α : Type*) where
  name : List α
  out : α
  deriving DecidableEq

/-- One pass from the left that reads each entity once; some items are skipped first. -/
def decodeFrom (mark : α) (entities : List (Entity α)) : Nat → List α → List α
  | _, [] => []
  | skip + 1, _ :: rest => decodeFrom mark entities skip rest
  | 0, item :: rest =>
      match entities.find? fun entity => (mark :: entity.name).isPrefixOf (item :: rest) with
      | some entity => entity.out :: decodeFrom mark entities entity.name.length rest
      | none => item :: decodeFrom mark entities 0 rest

def decode (mark : α) (entities : List (Entity α)) (text : List α) : List α :=
  decodeFrom mark entities 0 text

def encode (mark : α) (entities : List (Entity α)) (text : List α) : List α :=
  text.flatMap fun item =>
    match entities.find? fun entity => entity.out = item with
    | some entity => mark :: entity.name
    | none => [item]

structure Readable (mark : α) (entities : List (Entity α)) : Prop where
  unmarked : ∀ entity ∈ entities, mark ∉ entity.name
  distinct : ∀ entity ∈ entities, ∀ other ∈ entities, entity.name <+: other.name → entity = other

section

variable {mark item : α} {entities : List (Entity α)} {entity : Entity α} {text : List α}

theorem replaceFrom_skip (pattern substitute : List α) (skip : Nat) (text : List α) :
    replaceFrom pattern substitute skip text = replace pattern substitute (text.drop skip) := by
  induction skip generalizing text with
  | zero => rfl
  | succ skip ih =>
      cases text with
      | nil => simp [replace, replaceFrom]
      | cons item rest => exact ih rest

theorem decodeFrom_skip (mark : α) (entities : List (Entity α)) (skip : Nat) (text : List α) :
    decodeFrom mark entities skip text = decode mark entities (text.drop skip) := by
  induction skip generalizing text with
  | zero => rfl
  | succ skip ih =>
      cases text with
      | nil => simp [decode, decodeFrom]
      | cons item rest => exact ih rest

theorem replace_match (pattern : List α) (first : α) (substitute rest : List α) :
    replace (first :: pattern) substitute (first :: pattern ++ rest) =
      substitute ++ replace (first :: pattern) substitute rest := by
  rw [replace, List.cons_append, replaceFrom, if_pos (by simp), replaceFrom_skip]
  simp

theorem replace_cons {pattern substitute : List α} (h : ¬ pattern <+: item :: text) :
    replace pattern substitute (item :: text) = item :: replace pattern substitute text := by
  rw [replace, replaceFrom, if_neg fun hprefix => h (List.isPrefixOf_iff_prefix.mp hprefix)]
  rfl

theorem replace_append {name substitute before : List α} (h : mark ∉ before) (rest : List α) :
    replace (mark :: name) substitute (before ++ rest) = before ++ replace (mark :: name) substitute rest := by
  induction before with
  | nil => rfl
  | cons item before ih =>
      rw [List.mem_cons, not_or] at h
      rw [List.cons_append, replace_cons, ih h.2, List.cons_append]
      exact fun hprefix => h.1 (List.cons_prefix_cons.mp hprefix).1

theorem prefix_of_replace {name before : List α} {out : α} (hmark : mark ∉ before)
    (hout : out ∉ before) (h : before <+: replace (mark :: name) [out] text) : before <+: text := by
  induction before generalizing text with
  | nil => exact List.nil_prefix
  | cons first before ih =>
      rw [List.mem_cons, not_or] at hmark hout
      cases text with
      | nil => exact h
      | cons item rest =>
          by_cases hentity : mark :: name <+: item :: rest
          · obtain ⟨tail, htail⟩ := hentity
            rw [← htail, replace_match, List.singleton_append, List.cons_prefix_cons] at h
            exact absurd h.1.symm hout.1
          · rw [replace_cons hentity, List.cons_prefix_cons] at h
            exact List.cons_prefix_cons.mpr ⟨h.1, ih hmark.2 hout.2 h.2⟩

theorem Readable.find (h : Readable mark entities) (hmem : entity ∈ entities) (rest : List α) :
    (entities.find? fun other => (mark :: other.name).isPrefixOf (mark :: entity.name ++ rest)) =
      some entity := by
  have hself : (mark :: entity.name).isPrefixOf (mark :: entity.name ++ rest) = true :=
    List.isPrefixOf_iff_prefix.mpr (List.prefix_append _ _)
  cases hfind : entities.find? fun other =>
      (mark :: other.name).isPrefixOf (mark :: entity.name ++ rest) with
  | none => exact absurd hself (List.find?_eq_none.mp hfind entity hmem)
  | some other =>
      have hfound := List.find?_some hfind
      have hother := List.isPrefixOf_iff_prefix.mp hfound
      rw [List.cons_append, List.cons_prefix_cons] at hother
      have hboth := List.mem_of_find?_eq_some hfind
      congr 1
      rcases List.prefix_or_prefix_of_prefix hother.2 (List.prefix_append entity.name rest) with
        hle | hle
      · exact h.distinct other hboth entity hmem hle
      · exact (h.distinct entity hmem other hboth hle).symm

theorem decode_entity (h : Readable mark entities) (hmem : entity ∈ entities) (rest : List α) :
    decode mark entities (mark :: entity.name ++ rest) =
      entity.out :: decode mark entities rest := by
  have hfind := h.find hmem rest
  rw [List.cons_append] at hfind
  rw [decode, List.cons_append, decodeFrom, hfind]
  dsimp only
  rw [decodeFrom_skip, List.drop_left]

theorem decode_cons (h : ∀ entity ∈ entities, ¬ mark :: entity.name <+: item :: text) :
    decode mark entities (item :: text) = item :: decode mark entities text := by
  have hfind : (entities.find? fun entity => (mark :: entity.name).isPrefixOf (item :: text)) = none :=
    List.find?_eq_none.mpr fun entity hmem hprefix =>
      h entity hmem (List.isPrefixOf_iff_prefix.mp hprefix)
  rw [decode, decodeFrom, hfind]
  rfl

theorem decode_cons_of_ne (h : item ≠ mark) :
    decode mark entities (item :: text) = item :: decode mark entities text :=
  decode_cons fun _ _ hprefix => h (List.cons_prefix_cons.mp hprefix).1.symm

@[simp] theorem decode_nil : decode mark entities [] = [] := rfl

theorem length_after {β : Type*} (mark : β) (name rest : List β) :
    rest.length < (mark :: name ++ rest).length := by
  rw [List.cons_append, List.length_cons, List.length_append]
  omega

/-- One pass over all entities is a replacement of the first and a pass over the
others, which can neither read what the first one wrote nor find more before it. -/
theorem decode_replace (h : Readable mark (entity :: entities)) (hout : entity.out ≠ mark)
    (hnames : ∀ other ∈ entities, entity.out ∉ other.name) :
    decode mark (entity :: entities) text =
      decode mark entities (replace (mark :: entity.name) [entity.out] text) := by
  have hrest : Readable mark entities := ⟨fun other hmem => h.unmarked other (List.mem_cons_of_mem _ hmem),
    fun other hmem another hanother => h.distinct other (List.mem_cons_of_mem _ hmem) another
      (List.mem_cons_of_mem _ hanother)⟩
  induction hlength : text.length using Nat.strongRecOn generalizing text with
  | ind length ih =>
      subst hlength
      cases text with
      | nil => rfl
      | cons item tail =>
          by_cases hfirst : mark :: entity.name <+: item :: tail
          · obtain ⟨rest, hrest'⟩ := hfirst
            rw [← hrest', decode_entity h List.mem_cons_self, replace_match, List.singleton_append,
              decode_cons_of_ne hout, ih rest.length (hrest' ▸ length_after mark entity.name rest) rfl]
          · by_cases hother : ∃ other ∈ entities, mark :: other.name <+: item :: tail
            · obtain ⟨other, hmem, rest, hrest'⟩ := hother
              have hskipped : replace (mark :: entity.name) [entity.out] (item :: tail) =
                  mark :: other.name ++ replace (mark :: entity.name) [entity.out] rest := by
                rw [← hrest', List.cons_append] at hfirst ⊢
                rw [replace_cons hfirst, replace_append (hrest.unmarked other hmem), List.cons_append]
              rw [hskipped, decode_entity hrest hmem, ← hrest',
                decode_entity h (List.mem_cons_of_mem _ hmem),
                ih rest.length (hrest' ▸ length_after mark other.name rest) rfl]
            · rw [replace_cons hfirst, decode_cons, decode_cons, ih tail.length (Nat.lt_succ_self _) rfl]
              · intro other hmem hprefix
                obtain ⟨rfl, hname⟩ := List.cons_prefix_cons.mp hprefix
                refine hother ⟨other, hmem, List.cons_prefix_cons.mpr ⟨rfl, ?_⟩⟩
                exact prefix_of_replace (hrest.unmarked other hmem) (hnames other hmem) hname
              · intro other hmem hprefix
                rcases List.mem_cons.mp hmem with rfl | hmem
                · exact hfirst hprefix
                · exact hother ⟨other, hmem, hprefix⟩

theorem decode_single (h : mark ∉ entity.name) :
    decode mark [entity] text = replace (mark :: entity.name) [entity.out] text := by
  have hreadable : Readable mark [entity] := ⟨by simpa using h, by simp⟩
  induction hlength : text.length using Nat.strongRecOn generalizing text with
  | ind length ih =>
      subst hlength
      cases text with
      | nil => rfl
      | cons item tail =>
          by_cases hfirst : mark :: entity.name <+: item :: tail
          · obtain ⟨rest, hrest⟩ := hfirst
            rw [← hrest, decode_entity hreadable List.mem_cons_self, replace_match,
              ih rest.length (hrest ▸ length_after mark entity.name rest) rfl]
            rfl
          · rw [replace_cons hfirst, decode_cons, ih tail.length (Nat.lt_succ_self _) rfl]
            intro other hmem
            rw [List.mem_singleton.mp hmem]
            exact hfirst

theorem decode_encode (h : Readable mark entities) (hmark : ∃ entity ∈ entities, entity.out = mark)
    (text : List α) : decode mark entities (encode mark entities text) = text := by
  induction text with
  | nil => rfl
  | cons item rest ih =>
      rw [encode, List.flatMap_cons]
      change decode mark entities (_ ++ encode mark entities rest) = _
      cases hfind : entities.find? fun entity => entity.out = item with
      | some entity =>
          have hout : entity.out = item := by simpa using List.find?_some hfind
          dsimp only
          rw [decode_entity h (List.mem_of_find?_eq_some hfind), ih, hout]
      | none =>
          have hne : item ≠ mark := by
            rintro rfl
            obtain ⟨entity, hmem, hout⟩ := hmark
            exact absurd (decide_eq_true hout) (List.find?_eq_none.mp hfind entity hmem)
          dsimp only
          rw [List.singleton_append, decode_cons_of_ne hne, ih]

theorem not_mem_encode {forbidden : α} (hmark : forbidden ≠ mark)
    (hnames : ∀ entity ∈ entities, forbidden ∉ entity.name)
    (htext : forbidden ∈ text → ∃ entity ∈ entities, entity.out = forbidden) :
    forbidden ∉ encode mark entities text := by
  intro hmem
  obtain ⟨item, hitem, hmem⟩ := List.mem_flatMap.mp hmem
  split at hmem
  · rename_i entity hfind
    rcases List.mem_cons.mp hmem with heq | hmem
    · exact hmark heq
    · exact hnames entity (List.mem_of_find?_eq_some hfind) hmem
  · rename_i hfind
    obtain rfl := List.mem_singleton.mp hmem
    obtain ⟨entity, hentity, hout⟩ := htext hitem
    exact absurd (decide_eq_true hout) (List.find?_eq_none.mp hfind entity hentity)

end

end SjmbSlack.Entities
