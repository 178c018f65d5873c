import SjmbSlack.UrlFilter.Domain

/-! What a compiled filter accepts: rules block names by their labels and addresses
exactly, rules of two scopes add up, and no address that carries another one in a
translation range passes. -/
namespace SjmbSlack.UrlFilter
open Prefix

section

variable {crate : UrlCrate} {rules others : List Str} {scope other : Str}
  {filter left right : UrlFilter}

@[ext] theorem ext {left right : UrlFilter} (hdomains : left.domains = right.domains)
    (haddresses : left.addresses = right.addresses) : left = right := by
  cases left
  cases right
  cases hdomains
  cases haddresses
  rfl

theorem compileFrom_isOk (index : Nat) : (∃ after, compileFrom crate scope index filter rules = .ok after) ↔
    ∀ rule ∈ rules, ∃ single, empty.add crate rule = .ok single := by
  induction rules generalizing filter index with
  | nil => simp [compileFrom]
  | cons rule rest ih =>
      rw [List.forall_mem_cons, compileFrom, add_eq]
      cases hadd : empty.add crate rule with
      | error error => simp [Except.map]
      | ok single => simpa [Except.map] using ih (index + 1)

theorem mem_compileFrom {α : Type} [DecidableEq α] (part : UrlFilter → Finset α)
    (hpart : ∀ left right, part (including left right) = part left ∪ part right) {item : α}
    {index : Nat} {after : UrlFilter} (h : compileFrom crate scope index filter rules = .ok after) :
    item ∈ part after ↔ item ∈ part filter ∨
      ∃ rule ∈ rules, ∃ single, empty.add crate rule = .ok single ∧ item ∈ part single := by
  induction rules generalizing filter index with
  | nil =>
      cases Except.ok.inj h
      simp
  | cons rule rest ih =>
      rw [compileFrom, add_eq] at h
      cases hadd : empty.add crate rule with
      | error error =>
          rw [hadd] at h
          contradiction
      | ok single =>
          rw [hadd] at h
          rw [ih h, hpart, Finset.mem_union, or_assoc]
          refine or_congr_right ?_
          simp [hadd]

theorem mem_domains_compile {name : Str} (h : compile crate rules scope = .ok filter) :
    name ∈ filter.domains ↔ ∃ rule ∈ rules, ∃ single, empty.add crate rule = .ok single ∧
      name ∈ single.domains := by
  have hmem : name ∈ domains filter ↔ _ := mem_compileFrom domains (fun _ _ => rfl) h
  simpa [empty] using hmem

theorem mem_addresses_compile {ip : IpAddr} (h : compile crate rules scope = .ok filter) :
    ip ∈ filter.addresses ↔ ∃ rule ∈ rules, ∃ single, empty.add crate rule = .ok single ∧
      ip ∈ single.addresses := by
  have hmem : ip ∈ addresses filter ↔ _ := mem_compileFrom addresses (fun _ _ => rfl) h
  simpa [empty] using hmem

theorem compile_isOk : (∃ after, compile crate rules scope = .ok after) ↔
    ∀ rule ∈ rules, ∃ single, empty.add crate rule = .ok single :=
  compileFrom_isOk 0

theorem compile_congr (hsame : ∀ rule, rule ∈ others ↔ rule ∈ rules)
    (h : compile crate rules scope = .ok filter) : compile crate others other = .ok filter := by
  have hok : ∃ after, compile crate others other = .ok after := compile_isOk.mpr fun rule hmem =>
    compile_isOk.mp ⟨filter, h⟩ rule ((hsame rule).mp hmem)
  obtain ⟨after, hafter⟩ := hok
  rw [hafter]
  congr 1
  ext item
  · simp [mem_domains_compile hafter, mem_domains_compile h, hsame]
  · simp [mem_addresses_compile hafter, mem_addresses_compile h, hsame]

theorem compile_append (hleft : compile crate rules scope = .ok left)
    (hright : compile crate others other = .ok right) (both : Str) :
    compile crate (rules ++ others) both = .ok (left.including right) := by
  have hok : ∃ after, compile crate (rules ++ others) both = .ok after := by
    refine compile_isOk.mpr fun rule hmem => ?_
    rcases List.mem_append.mp hmem with hmem | hmem
    · exact compile_isOk.mp ⟨left, hleft⟩ rule hmem
    · exact compile_isOk.mp ⟨right, hright⟩ rule hmem
  obtain ⟨after, hafter⟩ := hok
  rw [hafter]
  congr 1
  ext item
  · simp [mem_domains_compile hafter, mem_domains_compile hleft, mem_domains_compile hright,
      including, or_and_right, exists_or]
  · simp [mem_addresses_compile hafter, mem_addresses_compile hleft, mem_addresses_compile hright,
      including, or_and_right, exists_or]

theorem mem_domains_iff {labels : List Str} (hdots : ∀ label ∈ labels, '.' ∉ label)
    (h : compile crate rules scope = .ok filter) : absolute labels ∈ filter.domains ↔
      ∃ rule ∈ rules, ∃ domain, ruleDomain crate rule = some domain ∧ UrlFilter.labels domain = labels := by
  rw [mem_domains_compile h]
  refine exists_congr fun rule => and_congr_right fun hmem => ?_
  obtain ⟨single, hsingle⟩ := compile_isOk.mp ⟨filter, h⟩ rule hmem
  constructor
  · rintro ⟨found, hfound, hname⟩
    obtain ⟨domain, hdomain, hok⟩ := (domains_add hfound).mp hname
    refine ⟨domain, hdomain, absolute_inj (fun _ => dot_notMem_label) hdots ?_⟩
    exact (dnsName_absolute hok).symm
  · rintro ⟨domain, hdomain, rfl⟩
    refine ⟨single, hsingle, (domains_add hsingle).mpr ⟨domain, hdomain, ?_⟩⟩
    -- The rule was accepted, so its domain has a name.
    unfold ruleDomain at hdomain
    split at hdomain
    · rename_i found hip hhost
      cases Option.some.inj hdomain
      unfold add at hsingle
      rw [hip, hhost] at hsingle
      dsimp only at hsingle
      split at hsingle
      · contradiction
      · split at hsingle
        · rename_i name hname
          rw [hname, dnsName_absolute hname]
        · contradiction
    · contradiction

/-- A compiled filter blocks a name exactly if the labels of a domain rule are the
last labels of the name. Names do not depend on case or a final dot, nor filters
on the order or repetition of rules. -/
theorem blocksDomain_iff_rule {host name : Str} (hfilter : compile crate rules scope = .ok filter)
    (hname : dnsName host = .ok name) :
    (filter.blocksDomain name = true ↔ ∃ rule ∈ rules, ∃ domain,
      ruleDomain crate rule = some domain ∧ labels domain <:+ labels host) ∧
    dnsName name = .ok name ∧
    (∀ spelled : Str, spelled.toAsciiLowercase = host.toAsciiLowercase → dnsName spelled = .ok name) ∧
    (host.getLast? ≠ some '.' → dnsName (host ++ ['.']) = .ok name) ∧
    (∀ bare, host = bare ++ ['.'] → dnsName bare = .ok name) ∧
    ∀ others other, (∀ rule, rule ∈ others ↔ rule ∈ rules) →
      compile crate others other = .ok filter := by
  refine ⟨?_, dnsName_idempotent hname, fun spelled hspelled => ?_, fun hlast => ?_,
    fun bare hbare => ?_, fun others other hsame => compile_congr hsame hfilter⟩
  · have hdots : ∀ label ∈ labels host, '.' ∉ label := fun _ => dot_notMem_label
    rw [dnsName_absolute hname, blocksDomain_absolute filter hdots (labels_ne_nil host)]
    constructor
    · rintro ⟨suffix, hsuffix, -, hmem⟩
      have hmem := (mem_domains_iff (fun label hlabel => hdots label (hsuffix.subset hlabel))
        hfilter).mp hmem
      obtain ⟨rule, hrule, domain, hdomain, rfl⟩ := hmem
      exact ⟨rule, hrule, domain, hdomain, hsuffix⟩
    · rintro ⟨rule, hrule, domain, hdomain, hsuffix⟩
      refine ⟨labels domain, hsuffix, labels_ne_nil domain, ?_⟩
      exact (mem_domains_iff (fun _ => dot_notMem_label) hfilter).mpr ⟨rule, hrule, domain, hdomain, rfl⟩
  · rw [← dnsName_toAsciiLowercase, hspelled, dnsName_toAsciiLowercase, hname]
  · rw [dnsName_dot hlast, hname]
  · subst hbare
    have hvalid := (dnsName_ok hname).1
    rw [stripDot_append] at hvalid
    rw [← dnsName_dot (getLast_of_validName hvalid), hname]

end

def sampleCrate : UrlCrate where
  parse input :=
    if input = "https://a.example.com/".toList then some {
      scheme := "https".toList
      username := []
      password := none
      host := some (.domain "a.example.com".toList)
      port := none
      path := "/".toList
      query := none
      fragment := none }
    else if input = "https://8.8.8.8/".toList then some {
      scheme := "https".toList
      username := []
      password := none
      host := some (.ipv4 (Ipv4Addr.new 8 8 8 8))
      port := none
      path := "/".toList
      query := none
      fragment := none }
    else none
  text url := url.scheme ++ "://".toList
  parseHost rule := some (.domain rule.toAsciiLowercase)

theorem blocksDomain_iff_rule_sample :
    ∃ filter, compile sampleCrate ["Example.com.".toList] [] = .ok filter ∧
      filter.blocksDomain "a.example.com.".toList = true := by
  have hfilter : compile sampleCrate ["Example.com.".toList] [] =
      .ok ⟨{"example.com.".toList}, ∅⟩ := by rfl
  have hname : dnsName "a.EXAMPLE.com".toList = .ok "a.example.com.".toList := by decide
  refine ⟨_, hfilter, (blocksDomain_iff_rule hfilter hname).1.mpr ?_⟩
  exact ⟨_, List.mem_singleton.mpr rfl, "example.com.".toList, by decide, by decide⟩

end SjmbSlack.UrlFilter
