import Mathlib.Data.Finset.Lattice.Lemmas
import SjmbSlack.UrlFilter.Filter

/-! Domain rules by labels: an absolute name is its labels with a dot after each,
and a rule blocks the names that end in its labels. -/
namespace SjmbSlack.UrlFilter

def absolute (labels : List Str) : Str := labels.flatMap fun label => label ++ ['.']

@[simp] theorem absolute_nil : absolute [] = [] := rfl

@[simp] theorem absolute_cons (label : Str) (labels : List Str) :
    absolute (label :: labels) = label ++ '.' :: absolute labels := by
  simp [absolute]

theorem absolute_eq_nil {labels : List Str} : absolute labels = [] ↔ labels = [] := by
  cases labels <;> simp

theorem absolute_splitOn (text : Str) : absolute (text.splitOn '.') = text ++ ['.'] := by
  induction text with
  | nil => simp
  | cons ch rest ih =>
      rw [List.splitOn_cons_eq_if_modifyHead]
      split
      · rename_i hdot
        rw [absolute_cons, ih, beq_iff_eq.mp hdot, List.nil_append, List.cons_append]
      · cases hsplit : rest.splitOn '.' with
        | nil => exact absurd hsplit (List.splitOn_ne_nil _ _)
        | cons label labels =>
            rw [hsplit, absolute_cons] at ih
            rw [List.modifyHead_cons, absolute_cons, List.cons_append, ih, List.cons_append]

theorem absolute_inj {left right : List Str} (hleft : ∀ label ∈ left, '.' ∉ label)
    (hright : ∀ label ∈ right, '.' ∉ label) (h : absolute left = absolute right) : left = right := by
  induction left generalizing right with
  | nil => exact (absolute_eq_nil.mp h.symm).symm
  | cons label labels ih =>
      cases right with
      | nil => exact absolute_eq_nil.mp h
      | cons other others =>
          rw [absolute_cons, absolute_cons] at h
          have hparts := congrArg (Str.splitOnce '.') h
          rw [Str.splitOnce_append (hleft _ List.mem_cons_self),
            Str.splitOnce_append (hright _ List.mem_cons_self)] at hparts
          obtain ⟨rfl, hrest⟩ := Prod.mk.inj (Option.some.inj hparts)
          rw [ih (fun _ hmem => hleft _ (List.mem_cons_of_mem _ hmem))
            (fun _ hmem => hright _ (List.mem_cons_of_mem _ hmem)) hrest]

theorem dot_notMem_label {text label : Str} (h : label ∈ text.splitOn '.') : '.' ∉ label := by
  induction text generalizing label with
  | nil =>
      rw [List.splitOn_nil, List.mem_singleton] at h
      simp [h]
  | cons ch rest ih =>
      rw [List.splitOn_cons_eq_if_modifyHead] at h
      split at h
      · rcases List.mem_cons.mp h with rfl | hmem
        · exact List.not_mem_nil
        · exact ih hmem
      · rename_i hdot
        cases hsplit : rest.splitOn '.' with
        | nil => exact absurd hsplit (List.splitOn_ne_nil _ _)
        | cons first labels =>
            rw [hsplit] at h ih
            rcases List.mem_cons.mp h with rfl | hmem
            · rw [List.mem_cons, not_or]
              exact ⟨fun heq => hdot (beq_iff_eq.mpr heq.symm), ih List.mem_cons_self⟩
            · exact ih (List.mem_cons_of_mem _ hmem)

theorem blocksDomain_absolute (filter : UrlFilter) {labels : List Str}
    (hdots : ∀ label ∈ labels, '.' ∉ label) (hne : labels ≠ []) :
    filter.blocksDomain (absolute labels) = true ↔
      ∃ suffix, suffix <:+ labels ∧ suffix ≠ [] ∧ absolute suffix ∈ filter.domains := by
  induction labels with
  | nil => exact absurd rfl hne
  | cons label labels ih =>
      have hsuffix : (∃ suffix, suffix <:+ label :: labels ∧ suffix ≠ [] ∧
          absolute suffix ∈ filter.domains) ↔ absolute (label :: labels) ∈ filter.domains ∨
            ∃ suffix, suffix <:+ labels ∧ suffix ≠ [] ∧ absolute suffix ∈ filter.domains := by
        simp only [List.suffix_cons_iff]
        constructor
        · rintro ⟨suffix, rfl | hshorter, hnonempty, hmem⟩
          · exact .inl hmem
          · exact .inr ⟨suffix, hshorter, hnonempty, hmem⟩
        · rintro (hmem | ⟨suffix, hshorter, hnonempty, hmem⟩)
          · exact ⟨_, .inl rfl, List.cons_ne_nil _ _, hmem⟩
          · exact ⟨suffix, .inr hshorter, hnonempty, hmem⟩
      rw [hsuffix, blocksDomain]
      split
      · rename_i hmem
        exact iff_of_true rfl (.inl hmem)
      · rename_i hmem
        have hsplit := Str.splitOnce_append (hdots _ List.mem_cons_self) (absolute labels)
        rw [← absolute_cons] at hsplit
        split
        · rename_i hnone
          rw [hsplit] at hnone
          contradiction
        · rename_i first rest hsome
          cases Option.some.inj (hsplit.symm.trans hsome)
          rw [or_iff_right hmem]
          by_cases hlast : labels = []
          · simp [hlast]
          · rw [if_neg fun hnil => hlast (absolute_eq_nil.mp hnil)]
            exact ih (fun _ hlabel => hdots _ (List.mem_cons_of_mem _ hlabel)) hlast

def labels (domain : Str) : List Str := (stripDot domain).toAsciiLowercase.splitOn '.'

theorem labels_ne_nil (domain : Str) : labels domain ≠ [] := List.splitOn_ne_nil _ _

theorem splitOn_toAsciiLowercase (text : Str) :
    text.toAsciiLowercase.splitOn '.' = (text.splitOn '.').map Str.toAsciiLowercase := by
  induction text with
  | nil => rfl
  | cons ch rest ih =>
      have hdot : (ch.toLower == '.') = (ch == '.') := by
        rw [Bool.eq_iff_iff, beq_iff_eq, beq_iff_eq]
        exact Str.toLower_eq_iff (by decide)
      change (ch.toLower :: Str.toAsciiLowercase rest).splitOn '.' = _
      rw [List.splitOn_cons_eq_if_modifyHead, List.splitOn_cons_eq_if_modifyHead, hdot, ih]
      split
      · rfl
      · cases hsplit : rest.splitOn '.' with
        | nil => exact absurd hsplit (List.splitOn_ne_nil _ _)
        | cons label labels => rfl

theorem validLabel_toAsciiLowercase (label : Str) :
    validLabel label.toAsciiLowercase = validLabel label := by
  have hdash : ∀ ch : Option Char, ch.map Char.toLower = some '-' ↔ ch = some '-' := by
    intro ch
    cases ch with
    | none => simp
    | some ch => simp [Str.toLower_eq_iff (show '-'.toNat < 65 by decide)]
  have hall : (label.toAsciiLowercase.all fun ch => Str.isAsciiAlphanumeric ch || ch = '-') =
      label.all fun ch => Str.isAsciiAlphanumeric ch || ch = '-' := by
    simp [Str.toAsciiLowercase, List.all_map, Function.comp_def,
      Str.toLower_eq_iff (show '-'.toNat < 65 by decide)]
  unfold validLabel
  rw [hall, Str.byteLength_toAsciiLowercase]
  simp [Str.toAsciiLowercase, List.head?_map, List.getLast?_map, hdash]

theorem validName_toAsciiLowercase (domain : Str) :
    validName domain.toAsciiLowercase = validName domain := by
  have hlabels : validLabel ∘ Str.toAsciiLowercase = validLabel :=
    funext validLabel_toAsciiLowercase
  unfold validName
  rw [splitOn_toAsciiLowercase, List.all_map, hlabels, Str.byteLength_toAsciiLowercase]
  simp [Str.toAsciiLowercase]

theorem stripDot_append (domain : Str) : stripDot (domain ++ ['.']) = domain := by
  simp [stripDot]

theorem stripDot_toAsciiLowercase (domain : Str) :
    stripDot domain.toAsciiLowercase = (stripDot domain).toAsciiLowercase := by
  have hlast : domain.toAsciiLowercase.getLast? = some '.' ↔ domain.getLast? = some '.' := by
    rw [Str.toAsciiLowercase, List.getLast?_map]
    cases domain.getLast? with
    | none => simp
    | some ch => simp [Str.toLower_eq_iff (show '.'.toNat < 65 by decide)]
  unfold stripDot
  rw [if_congr hlast rfl rfl]
  split
  · simp [Str.toAsciiLowercase]
  · rfl

theorem dnsName_ok {domain name : Str} (h : dnsName domain = .ok name) :
    validName (stripDot domain) = true ∧ name = (stripDot domain).toAsciiLowercase ++ ['.'] := by
  unfold dnsName at h
  split at h
  · rename_i hvalid
    exact ⟨hvalid, (Except.ok.inj h).symm⟩
  · contradiction

theorem dnsName_absolute {domain name : Str} (h : dnsName domain = .ok name) :
    name = absolute (labels domain) := by
  rw [(dnsName_ok h).2, labels, absolute_splitOn]

theorem dnsName_congr {domain other : Str}
    (h : (stripDot domain).toAsciiLowercase = (stripDot other).toAsciiLowercase) :
    dnsName domain = dnsName other := by
  unfold dnsName
  rw [h, ← validName_toAsciiLowercase (stripDot domain), h, validName_toAsciiLowercase]

theorem dnsName_toAsciiLowercase (domain : Str) : dnsName domain.toAsciiLowercase = dnsName domain :=
  dnsName_congr (by rw [stripDot_toAsciiLowercase, Str.toAsciiLowercase_twice])

theorem dnsName_idempotent {domain name : Str} (h : dnsName domain = .ok name) :
    dnsName name = .ok name := by
  obtain ⟨-, rfl⟩ := dnsName_ok h
  rw [← h]
  exact dnsName_congr (by rw [stripDot_append, Str.toAsciiLowercase_twice])

theorem getLast_of_validName {domain : Str} (h : validName domain = true) :
    domain.getLast? ≠ some '.' := by
  intro hlast
  obtain ⟨shorter, rfl⟩ := List.getLast?_eq_some_iff.mp hlast
  have hall := (Bool.and_eq_true_iff.mp h).2
  rw [List.splitOn_append_cons_self, List.splitOn_nil] at hall
  have hempty := List.all_eq_true.mp hall [] (by simp)
  exact absurd hempty (by decide)

theorem dnsName_dot {domain : Str} (h : domain.getLast? ≠ some '.') :
    dnsName (domain ++ ['.']) = dnsName domain :=
  dnsName_congr (by rw [stripDot_append, stripDot, if_neg h])

section

variable {crate : UrlCrate}

def ruleDomain (crate : UrlCrate) (rule : Str) : Option Str :=
  match IpAddr.parse rule, crate.parseHost rule with
  | none, some (.domain domain) => some domain
  | _, _ => none

theorem insert_union {α : Type*} [DecidableEq α] (item : α) (items : Finset α) :
    insert item items = items ∪ insert item ∅ := by
  rw [insert_empty_eq, Finset.insert_eq, Finset.union_comm]

theorem add_eq (filter : UrlFilter) (rule : Str) :
    filter.add crate rule = (empty.add crate rule).map filter.including := by
  unfold add
  split
  · rw [insert_union]
    simp [including, empty, Except.map]
  · split
    · rfl
    · split
      · rfl
      · split
        · rw [insert_union]
          simp [including, empty, Except.map]
        · rfl
      · rw [insert_union]
        simp [including, empty, Except.map]
      · rw [insert_union]
        simp [including, empty, Except.map]

theorem domains_add {filter : UrlFilter} {rule name : Str} (h : empty.add crate rule = .ok filter) :
    name ∈ filter.domains ↔ ∃ domain, ruleDomain crate rule = some domain ∧ dnsName domain = .ok name := by
  unfold add at h
  split at h
  · rename_i ip hip
    cases Except.ok.inj h
    simp [empty, ruleDomain, hip]
  · rename_i hip
    split at h
    · contradiction
    · split at h
      · contradiction
      · rename_i domain hhost
        split at h
        · rename_i found hname
          cases Except.ok.inj h
          simp [empty, ruleDomain, hip, hhost, hname, eq_comm]
        · contradiction
      · rename_i ip hhost
        cases Except.ok.inj h
        simp [empty, ruleDomain, hip, hhost]
      · rename_i ip hhost
        cases Except.ok.inj h
        simp [empty, ruleDomain, hip, hhost]

end

end SjmbSlack.UrlFilter
