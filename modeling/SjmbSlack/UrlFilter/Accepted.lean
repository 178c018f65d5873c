import SjmbSlack.UrlFilter.Policy

/-! What `check_with_resolver` accepts, over filters that are combined, answers in
any order, and addresses that carry an IPv4 address. -/
namespace SjmbSlack.UrlFilter
open Prefix

def Accepts (crate : UrlCrate) (filter : UrlFilter) (input : Str) (resolve : Str → Lookup) : Prop :=
  checkWithResolver crate filter input resolve = .ok ()

inductive Reordered : Lookup → Lookup → Prop where
  | answered {addresses others : List IpAddr} (h : addresses.Perm others) :
      Reordered (.answered addresses) (.answered others)
  | failed : Reordered .failed .failed
  | timedOut : Reordered .timedOut .timedOut

section

variable {crate : UrlCrate} {filter left right : UrlFilter} {input : Str}
  {resolve again : Str → Lookup}

theorem blocksDomain_including (name : Str) : (left.including right).blocksDomain name =
    (left.blocksDomain name || right.blocksDomain name) := by
  fun_induction blocksDomain (left.including right) name with
  | case1 name hmem =>
      rcases Finset.mem_union.mp hmem with hmem | hmem
      · rw [blocksDomain, if_pos hmem, Bool.true_or]
      · rw [blocksDomain.eq_def right, if_pos hmem, Bool.or_true]
  | case2 name hmem hsplit =>
      obtain ⟨hleft, hright⟩ := not_or.mp (mt Finset.mem_union.mpr hmem)
      rw [blocksDomain.eq_def left, blocksDomain.eq_def right, if_neg hleft, if_neg hright]
      split
      · rfl
      · rename_i hsome
        rw [hsplit] at hsome
        contradiction
  | case3 name hmem first hsplit =>
      obtain ⟨hleft, hright⟩ := not_or.mp (mt Finset.mem_union.mpr hmem)
      rw [blocksDomain.eq_def left, blocksDomain.eq_def right, if_neg hleft, if_neg hright]
      split
      · rfl
      · rename_i hsome
        cases Option.some.inj (hsplit.symm.trans hsome)
        rfl
  | case4 name hmem first rest hsplit hrest ih =>
      obtain ⟨hleft, hright⟩ := not_or.mp (mt Finset.mem_union.mpr hmem)
      rw [blocksDomain.eq_def left, blocksDomain.eq_def right, if_neg hleft, if_neg hright]
      split
      · rename_i hnone
        rw [hsplit] at hnone
        contradiction
      · rename_i hsome
        cases Option.some.inj (hsplit.symm.trans hsome)
        rw [if_neg hrest, if_neg hrest]
        exact ih

theorem hostAddresses_domain {domain : Str} {addresses : List IpAddr} :
    filter.hostAddresses resolve (.domain domain) = .ok addresses ↔ ∃ name,
      dnsName domain = .ok name ∧ filter.blocksDomain name = false ∧
        resolve name = .answered addresses := by
  unfold hostAddresses
  dsimp only
  cases hname : dnsName domain with
  | error error => simp
  | ok name =>
      cases hblocked : filter.blocksDomain name with
      | true => simp [hblocked]
      | false => cases hresolved : resolve name <;> simp [hblocked, hresolved]

theorem hostAddresses_including {host : Host} {addresses : List IpAddr} :
    (left.including right).hostAddresses resolve host = .ok addresses ↔
      left.hostAddresses resolve host = .ok addresses ∧
        right.hostAddresses resolve host = .ok addresses := by
  cases host with
  | domain domain =>
      simp only [hostAddresses_domain, blocksDomain_including, Bool.or_eq_false_iff]
      constructor
      · rintro ⟨name, hname, ⟨hleft, hright⟩, hanswer⟩
        exact ⟨⟨name, hname, hleft, hanswer⟩, ⟨name, hname, hright, hanswer⟩⟩
      · rintro ⟨⟨name, hname, hleft, hanswer⟩, ⟨same, hsame, hright, -⟩⟩
        cases Except.ok.inj (hname.symm.trans hsame)
        exact ⟨name, hname, ⟨hleft, hright⟩, hanswer⟩
  | ipv4 | ipv6 => exact (and_self_iff).symm

theorem checkAddresses_ok {addresses : List IpAddr} : filter.checkAddresses addresses = .ok () ↔
    addresses ≠ [] ∧ addresses.length ≤ MAX_DNS_ADDRESSES ∧
      ∀ ip ∈ addresses, ip ∉ filter.addresses ∧ isPublicAddress ip = true := by
  unfold checkAddresses
  split
  · simp_all
  · split
    · simp_all
    · split
      · rename_i hlisted
        refine iff_of_false (fun h => by contradiction) fun h => hlisted fun ip hmem => ?_
        exact (h.2.2 ip hmem).1
      · split
        · rename_i hpublic
          refine iff_of_false (fun h => by contradiction) fun h => hpublic fun ip hmem => ?_
          exact (h.2.2 ip hmem).2
        · rename_i hne hlength hlisted hpublic
          refine iff_of_true rfl ⟨hne, not_not.mp hlength, fun ip hmem => ?_⟩
          exact ⟨not_not.mp hlisted ip hmem, not_not.mp hpublic ip hmem⟩

theorem checkAddresses_including {addresses : List IpAddr} :
    (left.including right).checkAddresses addresses = .ok () ↔
      left.checkAddresses addresses = .ok () ∧ right.checkAddresses addresses = .ok () := by
  simp only [checkAddresses_ok, including, Finset.mem_union, not_or]
  grind

theorem accepts_iff : Accepts crate filter input resolve ↔
    ∃ url host addresses, crate.parse input = some url ∧
      (url.scheme = "http".toList ∨ url.scheme = "https".toList) ∧ url.host = some host ∧
      filter.hostAddresses resolve host = .ok addresses ∧
      filter.checkAddresses addresses = .ok () := by
  constructor
  · intro h
    unfold Accepts checkWithResolver at h
    split at h
    · contradiction
    · rename_i url hurl
      split at h
      · contradiction
      · rename_i hscheme
        split at h
        · contradiction
        · rename_i host hhost
          split at h
          · contradiction
          · rename_i addresses haddresses
            exact ⟨url, host, addresses, hurl, not_not.mp hscheme, hhost, haddresses, h⟩
  · rintro ⟨url, host, addresses, hurl, hscheme, hhost, haddresses, hcheck⟩
    simp only [Accepts, checkWithResolver, hurl, hhost, haddresses, hcheck, hscheme, not_true_eq_false,
      if_false]

theorem accepts_including : Accepts crate (left.including right) input resolve ↔
    Accepts crate left input resolve ∧ Accepts crate right input resolve := by
  rw [accepts_iff]
  constructor
  · rintro ⟨url, host, addresses, hurl, hscheme, hhost, haddresses, hcheck⟩
    obtain ⟨hleft, hright⟩ := hostAddresses_including.mp haddresses
    obtain ⟨hcheckLeft, hcheckRight⟩ := checkAddresses_including.mp hcheck
    exact ⟨accepts_iff.mpr ⟨url, host, addresses, hurl, hscheme, hhost, hleft, hcheckLeft⟩,
      accepts_iff.mpr ⟨url, host, addresses, hurl, hscheme, hhost, hright, hcheckRight⟩⟩
  · rintro ⟨hleft, hright⟩
    obtain ⟨url, host, addresses, hurl, hscheme, hhost, hleft, hcheckLeft⟩ := accepts_iff.mp hleft
    obtain ⟨found, same, others, hfound, -, hsame, hright, hcheckRight⟩ := accepts_iff.mp hright
    cases Option.some.inj (hurl.symm.trans hfound)
    cases Option.some.inj (hhost.symm.trans hsame)
    -- Neither filter blocks the host, so both see the answers of one lookup.
    have heq : addresses = others := by
      cases host with
      | domain domain =>
          obtain ⟨name, hname, -, hanswer⟩ := hostAddresses_domain.mp hleft
          obtain ⟨same, hsame, -, hother⟩ := hostAddresses_domain.mp hright
          cases Except.ok.inj (hname.symm.trans hsame)
          exact Lookup.answered.inj (hanswer.symm.trans hother)
      | ipv4 | ipv6 => exact (Except.ok.inj hleft).symm.trans (Except.ok.inj hright)
    subst heq
    exact ⟨url, host, addresses, hurl, hscheme, hhost, hostAddresses_including.mpr ⟨hleft, hright⟩,
      checkAddresses_including.mpr ⟨hcheckLeft, hcheckRight⟩⟩

theorem checkAddresses_perm {addresses others : List IpAddr} (h : addresses.Perm others)
    (hcheck : filter.checkAddresses addresses = .ok ()) : filter.checkAddresses others = .ok () := by
  obtain ⟨hne, hlength, hall⟩ := checkAddresses_ok.mp hcheck
  refine checkAddresses_ok.mpr ⟨fun hnil => hne ?_, h.length_eq ▸ hlength, fun ip hmem => ?_⟩
  · exact (hnil ▸ h).eq_nil
  · exact hall ip (h.mem_iff.mpr hmem)

theorem Reordered.symm {first second : Lookup} (h : Reordered first second) :
    Reordered second first := by
  cases h with
  | answered h => exact .answered h.symm
  | failed => exact .failed
  | timedOut => exact .timedOut

theorem Accepts.reordered (h : Accepts crate filter input resolve)
    (hsame : ∀ name, Reordered (resolve name) (again name)) : Accepts crate filter input again := by
  obtain ⟨url, host, addresses, hurl, hscheme, hhost, haddresses, hcheck⟩ := accepts_iff.mp h
  have hagain : ∃ others, filter.hostAddresses again host = .ok others ∧ addresses.Perm others := by
    cases host with
    | domain domain =>
        obtain ⟨name, hname, hfree, hanswer⟩ := hostAddresses_domain.mp haddresses
        have hother := hsame name
        rw [hanswer] at hother
        cases hresolved : again name with
        | answered others =>
            rw [hresolved] at hother
            cases hother with
            | answered hperm =>
                exact ⟨others, hostAddresses_domain.mpr ⟨name, hname, hfree, hresolved⟩, hperm⟩
        | failed | timedOut =>
            rw [hresolved] at hother
            cases hother
    | ipv4 | ipv6 => exact ⟨addresses, haddresses, .refl _⟩
  obtain ⟨others, hothers, hperm⟩ := hagain
  exact accepts_iff.mpr ⟨url, host, others, hurl, hscheme, hhost, hothers,
    checkAddresses_perm hperm hcheck⟩

end

/-- Rules of two scopes accept what each scope accepts, as do the rules in one list;
so further rules accept no more, and the order of the answers does not matter. -/
theorem rules_intersect {crate : UrlCrate} {rules others : List Str} {scope other : Str}
    {left right : UrlFilter} (hleft : compile crate rules scope = .ok left)
    (hright : compile crate others other = .ok right) (both : Str) :
    ∃ joined, compile crate (rules ++ others) both = .ok joined ∧ ∀ input resolve,
      (Accepts crate (left.including right) input resolve ↔
        Accepts crate left input resolve ∧ Accepts crate right input resolve) ∧
      (Accepts crate joined input resolve ↔ Accepts crate (left.including right) input resolve) ∧
      (∀ more scope wider, compile crate (rules ++ more) scope = .ok wider →
        Accepts crate (wider.including right) input resolve →
        Accepts crate (left.including right) input resolve) ∧
      (∀ more scope wider, compile crate (others ++ more) scope = .ok wider →
        Accepts crate (left.including wider) input resolve →
        Accepts crate (left.including right) input resolve) ∧
      ∀ again, (∀ name, Reordered (resolve name) (again name)) →
        (Accepts crate (left.including right) input again ↔
          Accepts crate (left.including right) input resolve) := by
  have hwider : ∀ {rules more scope wider narrow from'}, compile crate rules from' = .ok narrow →
      compile crate (rules ++ more) scope = .ok wider → ∀ {input resolve},
      Accepts crate wider input resolve → Accepts crate narrow input resolve := by
    intro rules more scope wider narrow from' hnarrow hwide input resolve haccepts
    have hok : ∃ added, compile crate more scope = .ok added := compile_isOk.mpr fun rule hmem =>
      compile_isOk.mp ⟨wider, hwide⟩ rule (List.mem_append_right _ hmem)
    obtain ⟨added, hadded⟩ := hok
    cases Except.ok.inj (hwide.symm.trans (compile_append hnarrow hadded scope))
    exact (accepts_including.mp haccepts).1
  refine ⟨_, compile_append hleft hright both, fun input resolve =>
    ⟨accepts_including, Iff.rfl, fun more scope wider hwide haccepts => ?_,
      fun more scope wider hwide haccepts => ?_, fun again hsame => ?_⟩⟩
  · obtain ⟨hfirst, hsecond⟩ := accepts_including.mp haccepts
    exact accepts_including.mpr ⟨hwider hleft hwide hfirst, hsecond⟩
  · obtain ⟨hfirst, hsecond⟩ := accepts_including.mp haccepts
    exact accepts_including.mpr ⟨hfirst, hwider hright hwide hsecond⟩
  · exact ⟨fun h => h.reordered fun name => (hsame name).symm, fun h => h.reordered hsame⟩

theorem rules_intersect_sample :
    ∃ joined, compile sampleCrate (["8.8.4.4".toList] ++ ["8.8.8.8".toList]) [] = .ok joined ∧
      ¬ Accepts sampleCrate joined "https://8.8.8.8/".toList fun _ => .failed := by
  have hleft : compile sampleCrate ["8.8.4.4".toList] [] =
      .ok ⟨∅, {.v4 (Ipv4Addr.new 8 8 4 4)}⟩ := by rfl
  have hright : compile sampleCrate ["8.8.8.8".toList] [] =
      .ok ⟨∅, {.v4 (Ipv4Addr.new 8 8 8 8)}⟩ := by rfl
  obtain ⟨joined, hjoined, hall⟩ := rules_intersect hleft hright []
  refine ⟨joined, hjoined, fun haccepts => ?_⟩
  obtain ⟨hboth, hjoin, -⟩ := hall "https://8.8.8.8/".toList fun _ => .failed
  have hlisted : checkWithResolver sampleCrate ⟨∅, {.v4 (Ipv4Addr.new 8 8 8 8)}⟩
      "https://8.8.8.8/".toList (fun _ => .failed) = .error .blacklistedAddress := by rfl
  cases hlisted.symm.trans (hboth.mp (hjoin.mp haccepts)).2

/-- How an IPv6 address carries an IPv4 address. -/
inductive Carries (a : Ipv4Addr) : Ipv6Addr → Prop where
  | compatible : Carries a (0#96 ++ a)
  | mapped : Carries a (0xffff#96 ++ a)
  | nat64 : Carries a (0x0064ff9b0000000000000000#96 ++ a)
  /-- A translator may place the address anywhere after the prefix. -/
  | nat64Local (rest : BitVec 80) : Carries a (0x0064ff9b0001#48 ++ rest)
  | sixToFour (rest : BitVec 80) : Carries a (0x2002#16 ++ (a ++ rest))
  | teredoServer (rest : BitVec 64) : Carries a (0x20010000#32 ++ (a ++ rest))
  /-- The client's address is stored with all bits inverted. -/
  | teredoClient (server : BitVec 32) (flags port : BitVec 16) :
      Carries a (0x20010000#32 ++ (server ++ (flags ++ (port ++ ~~~a))))

theorem not_public_of_carries {a : Ipv4Addr} {ip : Ipv6Addr} (h : Carries a ip) :
    publicV6 ip = false := by
  refine Bool.eq_false_iff.mpr fun hpublic => ?_
  obtain ⟨⟨hlow, hhigh⟩, hblocked⟩ := (publicV6_iff ip).mp hpublic
  have hglobal : GLOBAL_V6.toNat = 0x2000 * 2 ^ 112 := by decide
  have ha := a.isLt
  rw [hglobal] at hlow hhigh
  cases h with
  | compatible | mapped | nat64 =>
      -- Below 2000::, as are all prefixes of the first three kinds.
      rw [toNat_append_add] at hlow
      simp at hlow
      omega
  | nat64Local rest =>
      have := rest.isLt
      rw [toNat_append_add] at hlow
      simp at hlow
      omega
  | sixToFour rest =>
      refine hblocked (Ipv6Addr.new 0x2002 0 0 0 0 0 0 0, 16) (by decide) ?_
      have := (a ++ rest).isLt
      rw [Within, toNat_append_add, show (Ipv6Addr.new 0x2002 0 0 0 0 0 0 0).toNat = 0x2002 * 2 ^ 112 by
        decide]
      simp
      omega
  | teredoServer rest =>
      refine hblocked (Ipv6Addr.new 0x2001 0 0 0 0 0 0 0, 23) (by decide) ?_
      have := (a ++ rest).isLt
      rw [Within, toNat_append_add, show (Ipv6Addr.new 0x2001 0 0 0 0 0 0 0).toNat = 0x2001 * 2 ^ 112 by
        decide]
      simp
      omega
  | teredoClient server flags port =>
      refine hblocked (Ipv6Addr.new 0x2001 0 0 0 0 0 0 0, 23) (by decide) ?_
      have := (server ++ (flags ++ (port ++ ~~~a))).isLt
      rw [Within, toNat_append_add, show (Ipv6Addr.new 0x2001 0 0 0 0 0 0 0).toNat = 0x2001 * 2 ^ 112 by
        decide]
      simp
      omega

/-- Every address of an accepted URL passes the policy: none carries an IPv4 address,
and each is outside every blocked interval, an IPv6 address inside global unicast.
The masks that decide it split an address without losing a bit. -/
theorem accepted_addresses {crate : UrlCrate} {filter : UrlFilter} {input : Str}
    {resolve : Str → Lookup} (h : Accepts crate filter input resolve) :
    (∃ url host addresses, crate.parse input = some url ∧ url.host = some host ∧
      filter.hostAddresses resolve host = .ok addresses ∧ addresses ≠ [] ∧
      (∀ ip, .v4 ip ∈ addresses → ∀ entry ∈ BLOCKED_V4, ¬ Within entry ip) ∧
      ∀ ip, .v6 ip ∈ addresses → (∀ a, ¬ Carries a ip) ∧ Within (GLOBAL_V6, 3) ip ∧
        ∀ entry ∈ BLOCKED_V6, ¬ Within entry ip) ∧
    (∀ (ip : Ipv4Addr) bits, ip.toNat = (ip &&& mask 32 bits).toNat + ip.toNat % 2 ^ (32 - bits)) ∧
    ∀ (ip : Ipv6Addr) bits, ip.toNat = (ip &&& mask 128 bits).toNat + ip.toNat % 2 ^ (128 - bits) := by
  refine ⟨?_, toNat_eq_masked_add, toNat_eq_masked_add⟩
  obtain ⟨url, host, addresses, hurl, -, hhost, haddresses, hcheck⟩ := accepts_iff.mp h
  obtain ⟨hne, -, hall⟩ := checkAddresses_ok.mp hcheck
  refine ⟨url, host, addresses, hurl, hhost, haddresses, hne, fun ip hmem => ?_, fun ip hmem => ?_⟩
  · exact (publicV4_iff ip).mp (hall _ hmem).2
  · have hpublic : publicV6 ip = true := (hall _ hmem).2
    refine ⟨fun a hcarries => ?_, (publicV6_iff ip).mp hpublic⟩
    rw [not_public_of_carries hcarries] at hpublic
    contradiction

def otherHosts : UrlFilter := ⟨{"example.org".toList}, {.v4 (Ipv4Addr.new 8 8 4 4)}⟩

def resolveBoth (_ : Str) : Lookup :=
  .answered [.v4 (Ipv4Addr.new 8 8 8 8), .v6 (Ipv6Addr.new 0x2606 0x4700 0 0 0 0 0 0x1111)]

theorem accepted_addresses_sample :
    Accepts sampleCrate otherHosts "https://a.example.com/".toList resolveBoth ∧
      (∀ entry ∈ BLOCKED_V4, ¬ Within entry (Ipv4Addr.new 8 8 8 8)) ∧
      ∀ a, ¬ Carries a (Ipv6Addr.new 0x2606 0x4700 0 0 0 0 0 0x1111) := by
  have haccepts : Accepts sampleCrate otherHosts "https://a.example.com/".toList resolveBoth := by
    unfold Accepts
    decide +kernel
  obtain ⟨⟨url, host, addresses, hurl, hhost, haddresses, -, hv4, hv6⟩, -⟩ :=
    accepted_addresses haccepts
  cases Option.some.inj hurl
  cases Option.some.inj hhost
  have hresolved : otherHosts.hostAddresses resolveBoth (.domain "a.example.com".toList) =
      .ok [.v4 (Ipv4Addr.new 8 8 8 8), .v6 (Ipv6Addr.new 0x2606 0x4700 0 0 0 0 0 0x1111)] := by
    decide +kernel
  cases Except.ok.inj (hresolved.symm.trans haddresses)
  exact ⟨haccepts, hv4 _ List.mem_cons_self,
    (hv6 _ (List.mem_cons_of_mem _ List.mem_cons_self)).1⟩

end SjmbSlack.UrlFilter
