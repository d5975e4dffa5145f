import Lyra.Lib.Lines
import Lyra.Lib.Fallible
import Lyra.Store.Schema

/-!
# Mark certificates

`bimi.rs`: a bundle of certificates vouches for a logo where its leaf chains to an anchor, names
the domain, carries the logotype extension and is on no revocation list of its issuer.  PEM, DER
and the path building of `webpki` are a library; a signature is verified by the key it was made
with, and by no other.

* `revoked_rejected_iff`: exactly for which bundles a leaf that its issuer has revoked is never
  accepted;
* `decoy_accepted`: a bundle with a second certificate of the issuer's name.
-/

namespace Lyra.Bimi

open Lyra.Lib

/-! ## Certificates -/

abbrev Bytes := List UInt8

inductive GeneralName
  | dnsName (name : Text)
  | uri (uri : Text)
  | other
  deriving DecidableEq, Repr

/-- A certificate, as far as it is read; `κ` are the public keys. -/
structure Certificate (κ : Type) where
  subject : Bytes
  issuer : Bytes
  serial : Bytes
  key : κ
  /-- The key that the signature was made with. -/
  signedBy : κ
  isCa : Bool
  notBefore : Nat
  notAfter : Nat
  altNames : Option (List GeneralName)
  commonNames : List Text
  /-- The identifiers of the extensions. -/
  extensions : List (List Nat)
  /-- The distribution points, each with its full name. -/
  crlPoints : Option (List (Option (List GeneralName)))
  deriving DecidableEq, Repr

structure TrustAnchor (κ : Type) where
  subject : Bytes
  key : κ
  deriving DecidableEq, Repr

structure RevocationList (κ : Type) where
  issuer : Bytes
  signedBy : κ
  nextUpdate : Option Nat
  revoked : List Bytes
  deriving DecidableEq, Repr

/-- What is fetched from a distribution point. -/
inductive CrlFile (κ : Type)
  | unparsable
  | crl (crl : RevocationList κ)
  deriving DecidableEq, Repr

inductive VmcError
  | malformed (detail : String)
  | chain (detail : String)
  | expired
  | domainMismatch
  | noLogotype
  | revoked
  deriving DecidableEq, Repr

inductive WebpkiError
  | certNotValidYet
  | certExpired
  | other (text : String)
  deriving DecidableEq, Repr

def WebpkiError.toVmc : WebpkiError → VmcError
  | .certNotValidYet => .expired
  | .certExpired => .expired
  | .other text => .chain text

structure PemBlock where
  label : Text
  contents : Bytes
  deriving DecidableEq, Repr

def oidLogotype : List Nat := [1, 3, 6, 1, 5, 5, 7, 1, 12]

section Names

variable {κ : Type} (c : Certificate κ)

/-- `cert_domain_names`. -/
def certDomainNames : List Text :=
  let names := (c.altNames.getD []).filterMap fun name =>
    match name with
    | .dnsName dns => some dns
    | _ => none
  if names.isEmpty then c.commonNames else names

def isHttp (uri : Text) : Bool :=
  "http://".toList.isPrefixOf uri || "https://".toList.isPrefixOf uri

/-- `crl_urls`. -/
def crlUrls : List Text :=
  ((c.crlPoints.getD []).flatMap fun point => point.getD []).filterMap fun name =>
    match name with
    | .uri uri => if isHttp uri then some uri else none
    | _ => none

end Names

/-! ## Paths -/

section Paths

variable {κ : Type} [DecidableEq κ]

/-- The certificate has the issuer's name, and its signature. -/
def Certificate.issuedBy (c : Certificate κ) (name : Bytes) (key : κ) : Bool :=
  c.issuer == name && c.signedBy == key

/-- A path to an anchor, through at most so many of the supplied certificates. -/
def chainsWithin (anchors : List (TrustAnchor κ)) (supplied : List (Certificate κ)) (now : Nat) :
    Nat → Certificate κ → Bool
  | 0, c => c.notBefore ≤ now && now ≤ c.notAfter && anchors.any fun a => c.issuedBy a.subject a.key
  | n + 1, c =>
    c.notBefore ≤ now && now ≤ c.notAfter &&
      (anchors.any (fun a => c.issuedBy a.subject a.key) ||
        supplied.any fun i =>
          i.isCa && c.issuedBy i.subject i.key && chainsWithin anchors supplied now n i)

/-- PEM, DER and `webpki`. -/
structure CertLib (κ : Type) [DecidableEq κ] where
  /-- The blocks of a PEM text, each of them or an error. -/
  pemBlocks : Bytes → List (Option PemBlock)
  /-- `EndEntityCert::try_from`. -/
  endEntity : Bytes → Bool
  /-- `X509Certificate::from_der`. -/
  parseX509 : Bytes → Option (Certificate κ)
  /-- `SubjectPublicKeyInfo::from_der` on the key. -/
  readable : κ → Bool
  /-- The longest path that is looked for. -/
  depth : Nat
  /-- `verify_for_usage`. -/
  verifyForUsage : Bytes → List (TrustAnchor κ) → List Bytes → Nat → Option WebpkiError
  verify_iff : ∀ leaf anchors supplied now, verifyForUsage leaf anchors supplied now = none ↔
    ∃ c, parseX509 leaf = some c ∧
      chainsWithin anchors (supplied.filterMap parseX509) now depth c = true

end Paths

/-! ## Validation -/

section Validation

variable {κ : Type} [DecidableEq κ] (lib : CertLib κ)

/-- The loop of `parse_pem_certs`. -/
def collectCerts : List (Option PemBlock) → Except VmcError (List Bytes)
  | [] => .ok []
  | none :: _ => .error (.malformed "pem")
  | some pem :: rest =>
    match collectCerts rest with
    | .error e => .error e
    | .ok certs =>
      if pem.label = "CERTIFICATE".toList then .ok (pem.contents :: certs) else .ok certs

/-- `parse_pem_certs`: the leaf and the others. -/
def parsePemCerts (bundle : Bytes) : Except VmcError (Bytes × List Bytes) :=
  match collectCerts (lib.pemBlocks bundle) with
  | .error e => .error e
  | .ok [] => .error (.malformed "no certificates in bundle")
  | .ok (leaf :: others) => .ok (leaf, others)

/-- `issuer_spki`. -/
def issuerSpki (issuer : Bytes) (intermediates : List (Certificate κ))
    (anchors : List (TrustAnchor κ)) : Option κ :=
  match intermediates.find? (·.subject == issuer) with
  | some inter => some inter.key
  | none => (anchors.find? (·.subject == issuer)).map (·.key)

def RevocationList.stale (crl : RevocationList κ) (now : Nat) : Bool :=
  crl.nextUpdate.any (· < now)

/-- The list is the issuer's, by name and by key, is not stale and has the serial number. -/
def RevocationList.revokes (crl : RevocationList κ) (c : Certificate κ) (key : κ) (now : Nat) :
    Bool :=
  crl.issuer == c.issuer && crl.signedBy == key && !crl.stale now && crl.revoked.contains c.serial

/-- The loop of `check_revocation` over the distribution points. -/
def checkUrls (c : Certificate κ) (key : κ) (crlFetch : Text → Option (CrlFile κ)) (now : Nat) :
    List Text → Except VmcError Unit
  | [] => .ok ()
  | url :: rest =>
    match crlFetch url with
    | none => checkUrls c key crlFetch now rest
    | some .unparsable => checkUrls c key crlFetch now rest
    | some (.crl crl) =>
      if crl.revokes c key now then .error .revoked else checkUrls c key crlFetch now rest

/-- `check_revocation`. -/
def checkRevocation (intermediates : List (Certificate κ)) (anchors : List (TrustAnchor κ))
    (crlFetch : Text → Option (CrlFile κ)) (now : Nat) (c : Certificate κ) :
    Except VmcError Unit :=
  if (crlUrls c).isEmpty then .ok ()
  else
    match issuerSpki c.issuer intermediates anchors with
    | none => .error (.chain "issuer not in verified path")
    | some key => if !lib.readable key then .ok () else checkUrls c key crlFetch now (crlUrls c)

def parseAll : List Bytes → Except VmcError (List (Certificate κ))
  | [] => .ok []
  | der :: rest =>
    match lib.parseX509 der with
    | none => .error (.malformed "intermediate x509")
    | some c => (parseAll rest).map (c :: ·)

def checkAll (check : Certificate κ → Except VmcError Unit) :
    List (Certificate κ) → Except VmcError Unit
  | [] => .ok ()
  | c :: rest =>
    match check c with
    | .error e => .error e
    | .ok _ => checkAll check rest

/-- Checks 3 to 5, on the parsed bundle. -/
def checkLeaf (leaf : Certificate κ) (intermediates : List (Certificate κ)) (domain : Text)
    (anchors : List (TrustAnchor κ)) (crlFetch : Text → Option (CrlFile κ)) (now : Nat) :
    Except VmcError Unit :=
  if !(certDomainNames leaf).any (eqIgnoreAsciiCase · domain) then .error .domainMismatch
  else if !leaf.extensions.contains oidLogotype then .error .noLogotype
  else
    match checkRevocation lib intermediates anchors crlFetch now leaf with
    | .error e => .error e
    | .ok _ => checkAll (checkRevocation lib intermediates anchors crlFetch now) intermediates

/-- `validate_vmc_with_anchors`. -/
def validateVmcWithAnchors (bundle : Bytes) (domain : Text) (anchors : List (TrustAnchor κ))
    (crlFetch : Text → Option (CrlFile κ)) (now : Nat) : Except VmcError Unit :=
  match parsePemCerts lib bundle with
  | .error e => .error e
  | .ok (leafDer, intermediatesDer) =>
    if !lib.endEntity leafDer then .error (.malformed "leaf")
    else
      match lib.verifyForUsage leafDer anchors intermediatesDer now with
      | some e => .error e.toVmc
      | none =>
        match lib.parseX509 leafDer with
        | none => .error (.malformed "leaf x509")
        | some leaf =>
          match parseAll lib intermediatesDer with
          | .error e => .error e
          | .ok intermediates => checkLeaf lib leaf intermediates domain anchors crlFetch now

end Validation

/-! ## What is to hold -/

section Properties

variable {κ : Type} [DecidableEq κ] (lib : CertLib κ)

/-- The certificates of a bundle. -/
structure Parsed (bundle : Bytes) (leaf : Certificate κ) (intermediates : List (Certificate κ)) :
    Prop where
  ders : ∃ leafDer intermediatesDer, parsePemCerts lib bundle = .ok (leafDer, intermediatesDer) ∧
    lib.endEntity leafDer = true ∧ lib.parseX509 leafDer = some leaf ∧
    parseAll lib intermediatesDer = .ok intermediates

/-- The authority that signed the leaf has published a list with its number, which is not stale,
and the lookup returns it. -/
def RevokedBySigner (leaf : Certificate κ) (crlFetch : Text → Option (CrlFile κ)) (now : Nat) :
    Prop :=
  ∃ url ∈ crlUrls leaf, ∃ crl, crlFetch url = some (.crl crl) ∧
    crl.revokes leaf leaf.signedBy now = true

/-- The leaf names the domain, has the logotype and chains to an anchor. -/
structure Vouches (leaf : Certificate κ) (intermediates : List (Certificate κ)) (domain : Text)
    (anchors : List (TrustAnchor κ)) (now : Nat) : Prop where
  chains : chainsWithin anchors intermediates now lib.depth leaf = true
  names : ∃ name ∈ certDomainNames leaf, eqIgnoreAsciiCase name domain = true
  logotype : oidLogotype ∈ leaf.extensions

/-- Whatever the lookup returns, a leaf that its authority has revoked is not accepted, and one
that is accepted vouches for the domain. -/
def RejectsRevoked (bundle : Bytes) (domain : Text) (anchors : List (TrustAnchor κ)) (now : Nat) :
    Prop :=
  ∀ crlFetch,
    (∀ leaf intermediates, Parsed lib bundle leaf intermediates →
      RevokedBySigner leaf crlFetch now →
      validateVmcWithAnchors lib bundle domain anchors crlFetch now ≠ .ok ()) ∧
    (validateVmcWithAnchors lib bundle domain anchors crlFetch now = .ok () →
      ∃ leaf intermediates, Parsed lib bundle leaf intermediates ∧
        Vouches lib leaf intermediates domain anchors now)

/-- Every certificate with distribution points has one of its issuer's name beside it. -/
def IssuersKnown (intermediates : List (Certificate κ)) (anchors : List (TrustAnchor κ)) : Prop :=
  ∀ c ∈ intermediates, crlUrls c ≠ [] →
    (∃ i ∈ intermediates, i.subject = c.issuer) ∨ ∃ a ∈ anchors, a.subject = c.issuer

/-- The first certificate of the leaf's issuer's name, supplied or else an anchor, has the key the
leaf was signed with, and the key can be read. -/
def SignerFirst (leaf : Certificate κ) (intermediates : List (Certificate κ))
    (anchors : List (TrustAnchor κ)) : Prop :=
  ((intermediates.filter (·.subject == leaf.issuer)).map (·.key) ++
      (anchors.filter (·.subject == leaf.issuer)).map (·.key)).head? = some leaf.signedBy ∧
    lib.readable leaf.signedBy = true

end Properties

/-! ## The checks -/

section Checks

variable {κ : Type} [DecidableEq κ] {lib : CertLib κ} {c leaf : Certificate κ} {key : κ}
  {crlFetch : Text → Option (CrlFile κ)} {now : Nat} {urls : List Text}
  {intermediates : List (Certificate κ)} {anchors : List (TrustAnchor κ)} {domain : Text}
  {bundle : Bytes}

theorem checkUrls_eq_ok : checkUrls c key crlFetch now urls = .ok () ↔
    ∀ url ∈ urls, ∀ crl, crlFetch url = some (.crl crl) → crl.revokes c key now = false := by
  induction urls with
  | nil => exact iff_of_true rfl fun url hurl => (List.not_mem_nil hurl).elim
  | cons url rest ih =>
    rw [checkUrls, List.forall_mem_cons]
    cases hfetch : crlFetch url with
    | none => simpa using ih
    | some file =>
      cases file with
      | unparsable => simpa using ih
      | crl crl =>
        cases hrevokes : crl.revokes c key now with
        | true => simp [hrevokes]
        | false => simp [hrevokes, ih]

omit [DecidableEq κ] in
theorem issuerSpki_eq (issuer : Bytes) : issuerSpki issuer intermediates anchors =
    ((intermediates.filter (·.subject == issuer)).map (·.key) ++
      (anchors.filter (·.subject == issuer)).map (·.key)).head? := by
  unfold issuerSpki
  rw [List.head?_append, List.head?_map, List.head?_map, List.head?_filter, List.head?_filter]
  cases intermediates.find? (·.subject == issuer) with
  | none => rfl
  | some i => rfl

omit [DecidableEq κ] in
theorem issuerSpki_eq_some {issuer : Bytes} :
    (∃ key, issuerSpki issuer intermediates anchors = some key) ↔
      (∃ i ∈ intermediates, i.subject = issuer) ∨ ∃ a ∈ anchors, a.subject = issuer := by
  rw [issuerSpki_eq]
  constructor
  · rintro ⟨key, hkey⟩
    rcases List.mem_append.mp (List.mem_of_mem_head? hkey) with h | h
    · obtain ⟨i, hi, -⟩ := List.mem_map.mp h
      obtain ⟨hmem, hname⟩ := List.mem_filter.mp hi
      exact .inl ⟨i, hmem, beq_iff_eq.mp hname⟩
    · obtain ⟨a, ha, -⟩ := List.mem_map.mp h
      obtain ⟨hmem, hname⟩ := List.mem_filter.mp ha
      exact .inr ⟨a, hmem, beq_iff_eq.mp hname⟩
  · intro h
    apply Option.isSome_iff_exists.mp
    rw [List.isSome_head?]
    rcases h with ⟨i, hi, hname⟩ | ⟨a, ha, hname⟩
    · have hfound : i ∈ intermediates.filter (·.subject == issuer) :=
        List.mem_filter.mpr ⟨hi, beq_iff_eq.mpr hname⟩
      exact List.ne_nil_of_mem (List.mem_append_left _ (List.mem_map_of_mem hfound))
    · have hfound : a ∈ anchors.filter (·.subject == issuer) :=
        List.mem_filter.mpr ⟨ha, beq_iff_eq.mpr hname⟩
      exact List.ne_nil_of_mem (List.mem_append_right _ (List.mem_map_of_mem hfound))

theorem checkRevocation_eq_ok :
    checkRevocation lib intermediates anchors crlFetch now c = .ok () ↔
      crlUrls c = [] ∨ ∃ key, issuerSpki c.issuer intermediates anchors = some key ∧
        (lib.readable key = true → ∀ url ∈ crlUrls c, ∀ crl, crlFetch url = some (.crl crl) →
          crl.revokes c key now = false) := by
  unfold checkRevocation
  cases hurls : crlUrls c with
  | nil => simp
  | cons url rest =>
    cases hkey : issuerSpki c.issuer intermediates anchors with
    | none => simp
    | some key =>
      cases hreadable : lib.readable key with
      | false => simp [hreadable]
      | true =>
        have hcheck := @checkUrls_eq_ok κ _ c key crlFetch now (url :: rest)
        simpa [hreadable] using hcheck

omit [DecidableEq κ] in
theorem checkAll_eq_ok {check : Certificate κ → Except VmcError Unit} :
    checkAll check intermediates = .ok () ↔ ∀ c ∈ intermediates, check c = .ok () := by
  induction intermediates with
  | nil => exact iff_of_true rfl fun c hc => (List.not_mem_nil hc).elim
  | cons c rest ih =>
    rw [checkAll, List.forall_mem_cons]
    cases hc : check c with
    | error e => simp
    | ok u => simpa using ih

theorem checkLeaf_eq_ok :
    checkLeaf lib leaf intermediates domain anchors crlFetch now = .ok () ↔
      (∃ name ∈ certDomainNames leaf, eqIgnoreAsciiCase name domain = true) ∧
        oidLogotype ∈ leaf.extensions ∧
        checkRevocation lib intermediates anchors crlFetch now leaf = .ok () ∧
        ∀ c ∈ intermediates, checkRevocation lib intermediates anchors crlFetch now c = .ok () := by
  rw [← checkAll_eq_ok, ← List.any_eq_true, ← List.contains_iff_mem]
  unfold checkLeaf
  cases (certDomainNames leaf).any (eqIgnoreAsciiCase · domain) with
  | false => simp
  | true =>
    cases leaf.extensions.contains oidLogotype with
    | false => simp
    | true =>
      cases hleaf : checkRevocation lib intermediates anchors crlFetch now leaf with
      | error e => simp
      | ok u => simp

theorem parseAll_eq_ok {ders : List Bytes} (h : parseAll lib ders = .ok intermediates) :
    ders.filterMap lib.parseX509 = intermediates := by
  induction ders generalizing intermediates with
  | nil =>
    cases h
    rfl
  | cons der rest ih =>
    rw [parseAll] at h
    cases hder : lib.parseX509 der with
    | none =>
      rw [hder] at h
      cases h
    | some c =>
      rw [hder] at h
      cases hrest : parseAll lib rest with
      | error e =>
        simp only [hrest] at h
        cases h
      | ok cs =>
        simp only [hrest] at h
        cases h
        rw [List.filterMap_cons_some hder, ih hrest]

/-- What an accepted bundle is. -/
theorem validate_eq_ok :
    validateVmcWithAnchors lib bundle domain anchors crlFetch now = .ok () ↔
      ∃ leaf intermediates, Parsed lib bundle leaf intermediates ∧
        chainsWithin anchors intermediates now lib.depth leaf = true ∧
        checkLeaf lib leaf intermediates domain anchors crlFetch now = .ok () := by
  constructor
  · intro h
    unfold validateVmcWithAnchors at h
    cases hpem : parsePemCerts lib bundle with
    | error e =>
      rw [hpem] at h
      cases h
    | ok ders =>
      obtain ⟨leafDer, intermediatesDer⟩ := ders
      cases hend : lib.endEntity leafDer with
      | false => simp [hpem, hend] at h
      | true =>
        cases hverify : lib.verifyForUsage leafDer anchors intermediatesDer now with
        | some e => simp [hpem, hend, hverify] at h
        | none =>
          obtain ⟨leaf, hleaf, hchains⟩ := (lib.verify_iff _ _ _ _).mp hverify
          cases hrest : parseAll lib intermediatesDer with
          | error e => simp [hpem, hend, hverify, hleaf, hrest] at h
          | ok intermediates =>
            simp only [hpem, hend, hverify, hleaf, hrest, Bool.not_true, Bool.false_eq_true,
              if_false] at h
            rw [parseAll_eq_ok hrest] at hchains
            exact ⟨leaf, intermediates, ⟨_, _, hpem, hend, hleaf, hrest⟩, hchains, h⟩
  · rintro ⟨leaf, intermediates, ⟨leafDer, intermediatesDer, hpem, hend, hleaf, hrest⟩, hchains, h⟩
    have hverify : lib.verifyForUsage leafDer anchors intermediatesDer now = none := by
      apply (lib.verify_iff _ _ _ _).mpr
      refine ⟨leaf, hleaf, ?_⟩
      rw [parseAll_eq_ok hrest]
      exact hchains
    unfold validateVmcWithAnchors
    simp only [hpem, hend, hverify, hleaf, hrest, Bool.not_true, Bool.false_eq_true, if_false]
    exact h

theorem Parsed.unique {leaf' : Certificate κ} {intermediates' : List (Certificate κ)}
    (h : Parsed lib bundle leaf intermediates) (h' : Parsed lib bundle leaf' intermediates') :
    leaf' = leaf ∧ intermediates' = intermediates := by
  obtain ⟨_, _, hpem, -, hleaf, hrest⟩ := h.ders
  obtain ⟨_, _, hpem', -, hleaf', hrest'⟩ := h'.ders
  cases hpem.symm.trans hpem'
  exact ⟨Option.some.inj (hleaf'.symm.trans hleaf), Except.ok.inj (hrest'.symm.trans hrest)⟩

end Checks

/-! ## Revoked leaves -/

section Revoked

variable {κ : Type} [DecidableEq κ] {lib : CertLib κ} {leaf : Certificate κ} {now : Nat}
  {intermediates : List (Certificate κ)} {anchors : List (TrustAnchor κ)} {domain : Text}
  {bundle : Bytes}

/-- Where the signer is found first, its list is heard. -/
theorem not_accepted_of_signerFirst {crlFetch : Text → Option (CrlFile κ)}
    (hfirst : SignerFirst lib leaf intermediates anchors)
    (hrevoked : RevokedBySigner leaf crlFetch now) :
    checkRevocation lib intermediates anchors crlFetch now leaf ≠ .ok () := by
  intro h
  obtain ⟨url, hurl, crl, hcrl, hrevokes⟩ := hrevoked
  obtain hnone | ⟨key, hkey, hclear⟩ := checkRevocation_eq_ok.mp h
  · rw [hnone] at hurl
    cases hurl
  · rw [issuerSpki_eq, hfirst.1] at hkey
    obtain rfl := Option.some.inj hkey
    rw [hclear hfirst.2 url hurl crl hcrl] at hrevokes
    cases hrevokes

/-- The signer's list of this one leaf. -/
def signerList (leaf : Certificate κ) : RevocationList κ where
  issuer := leaf.issuer
  signedBy := leaf.signedBy
  nextUpdate := none
  revoked := [leaf.serial]

theorem issuerSpki_of_chains {depth : Nat}
    (h : chainsWithin anchors intermediates now depth leaf = true) :
    ∃ key, issuerSpki leaf.issuer intermediates anchors = some key := by
  have hname : ∀ {name : Bytes} {key : κ}, leaf.issuedBy name key = true → name = leaf.issuer := by
    intro name key h
    exact (beq_iff_eq.mp (Bool.and_eq_true_iff.mp h).1).symm
  have hanchors : anchors.any (fun a => leaf.issuedBy a.subject a.key) = true →
      ∃ a ∈ anchors, a.subject = leaf.issuer := by
    intro hany
    obtain ⟨a, ha, hissued⟩ := List.any_eq_true.mp hany
    exact ⟨a, ha, hname hissued⟩
  apply issuerSpki_eq_some.mpr
  cases depth with
  | zero =>
    rw [chainsWithin] at h
    exact .inr (hanchors (Bool.and_eq_true_iff.mp h).2)
  | succ n =>
    rw [chainsWithin] at h
    rcases Bool.or_eq_true_iff.mp (Bool.and_eq_true_iff.mp h).2 with hany | hany
    · exact .inr (hanchors hany)
    · obtain ⟨i, hi, hstep⟩ := List.any_eq_true.mp hany
      exact .inl ⟨i, hi, hname (Bool.and_eq_true_iff.mp (Bool.and_eq_true_iff.mp hstep).1).2⟩

theorem issuersKnown_of_checks {crlFetch : Text → Option (CrlFile κ)}
    (h : ∀ c ∈ intermediates,
      checkRevocation lib intermediates anchors crlFetch now c = .ok ()) :
    IssuersKnown intermediates anchors := by
  intro c hc hurls
  obtain hnone | ⟨key, hkey, -⟩ := checkRevocation_eq_ok.mp (h c hc)
  · exact absurd hnone hurls
  · exact issuerSpki_eq_some.mp ⟨key, hkey⟩

/-- Where another one is found first, the signer's list is not. -/
theorem accepted_of_not_signerFirst
    (hvouches : Vouches lib leaf intermediates domain anchors now)
    (hknown : IssuersKnown intermediates anchors)
    (hfirst : ¬SignerFirst lib leaf intermediates anchors) :
    checkLeaf lib leaf intermediates domain anchors (fun _ => some (.crl (signerList leaf))) now =
      .ok () := by
  obtain ⟨key, hkey⟩ := issuerSpki_of_chains hvouches.chains
  have hother : lib.readable key = true → leaf.signedBy ≠ key := by
    rintro hreadable rfl
    exact hfirst ⟨by rw [← issuerSpki_eq]; exact hkey, hreadable⟩
  have hclear : ∀ c : Certificate κ, ∀ k, issuerSpki c.issuer intermediates anchors = some k →
      lib.readable k = true → (signerList leaf).revokes c k now = false := by
    intro c k hk hreadable
    apply Bool.eq_false_iff.mpr
    intro hrevokes
    simp only [RevocationList.revokes, Bool.and_eq_true, beq_iff_eq, signerList] at hrevokes
    obtain ⟨⟨⟨hissuer, hsigned⟩, -⟩, -⟩ := hrevokes
    rw [← hissuer] at hk
    cases hkey.symm.trans hk
    exact hother hreadable hsigned
  refine checkLeaf_eq_ok.mpr ⟨hvouches.names, hvouches.logotype, ?_, ?_⟩
  · refine checkRevocation_eq_ok.mpr (.inr ⟨key, hkey, ?_⟩)
    rintro hreadable url - crl hcrl
    cases hcrl
    exact hclear leaf key hkey hreadable
  · intro c hc
    apply checkRevocation_eq_ok.mpr
    rcases eq_or_ne (crlUrls c) [] with hurls | hurls
    · exact .inl hurls
    · obtain ⟨k, hk⟩ := issuerSpki_eq_some.mpr (hknown c hc hurls)
      refine .inr ⟨k, hk, ?_⟩
      rintro hreadable url - crl hcrl
      cases hcrl
      exact hclear c k hk hreadable

/-- Exactly when revoked leaves are rejected. -/
theorem revoked_rejected_iff (lib : CertLib κ) (bundle : Bytes) (domain : Text)
    (anchors : List (TrustAnchor κ)) (now : Nat) :
    RejectsRevoked lib bundle domain anchors now ↔
      ∀ leaf intermediates, Parsed lib bundle leaf intermediates →
        Vouches lib leaf intermediates domain anchors now → IssuersKnown intermediates anchors →
        crlUrls leaf ≠ [] → SignerFirst lib leaf intermediates anchors := by
  constructor
  · intro h leaf intermediates hparsed hvouches hknown hurls
    apply Classical.byContradiction
    intro hfirst
    obtain ⟨url, hurl⟩ := List.exists_mem_of_ne_nil _ hurls
    have hrevoked : RevokedBySigner leaf (fun _ => some (.crl (signerList leaf))) now := by
      refine ⟨url, hurl, _, rfl, ?_⟩
      simp [RevocationList.revokes, RevocationList.stale, signerList]
    apply (h _).1 leaf intermediates hparsed hrevoked
    exact validate_eq_ok.mpr ⟨leaf, intermediates, hparsed, hvouches.chains,
      accepted_of_not_signerFirst hvouches hknown hfirst⟩
  · intro h crlFetch
    have hvouches : ∀ {leaf intermediates},
        chainsWithin anchors intermediates now lib.depth leaf = true →
        checkLeaf lib leaf intermediates domain anchors crlFetch now = .ok () →
        Vouches lib leaf intermediates domain anchors now := by
      intro leaf intermediates hchains hcheck
      obtain ⟨hnames, hlogotype, -, -⟩ := checkLeaf_eq_ok.mp hcheck
      exact ⟨hchains, hnames, hlogotype⟩
    constructor
    · intro leaf intermediates hparsed hrevoked hok
      obtain ⟨leaf', intermediates', hparsed', hchains, hcheck⟩ := validate_eq_ok.mp hok
      obtain ⟨rfl, rfl⟩ := hparsed.unique hparsed'
      obtain ⟨-, -, hleaf, hrest⟩ := checkLeaf_eq_ok.mp hcheck
      have hurls : crlUrls leaf' ≠ [] := by
        obtain ⟨url, hurl, -⟩ := hrevoked
        exact List.ne_nil_of_mem hurl
      have hfirst := h _ _ hparsed (hvouches hchains hcheck) (issuersKnown_of_checks hrest) hurls
      exact not_accepted_of_signerFirst hfirst hrevoked hleaf
    · intro hok
      obtain ⟨leaf, intermediates, hparsed, hchains, hcheck⟩ := validate_eq_ok.mp hok
      exact ⟨leaf, intermediates, hparsed, hvouches hchains hcheck⟩

end Revoked

/-! ## A second certificate of the issuer's name -/

/-- Certificates are known by one byte; the issuer, named 9, has the key 1. -/
def exampleCert (subject issuer : Nat) (key signedBy : Nat) (urls : List String) :
    Certificate Nat where
  subject := [UInt8.ofNat subject]
  issuer := [UInt8.ofNat issuer]
  serial := [5]
  key := key
  signedBy := signedBy
  isCa := true
  notBefore := 0
  notAfter := 100
  altNames := some [.dnsName "Example.com".toList]
  commonNames := []
  extensions := [oidLogotype]
  crlPoints := some [some (urls.map fun url => .uri url.toList)]

/-- The leaf, and a certificate of the issuer's name that another key has signed. -/
def exampleX509 : Bytes → Option (Certificate Nat)
  | [1] => some (exampleCert 1 9 3 1 ["http://ca/crl"])
  | [2] => some (exampleCert 9 9 2 2 [])
  | _ => none

def exampleLib : CertLib Nat where
  pemBlocks := fun bundle => bundle.map fun b => some ⟨"CERTIFICATE".toList, [b]⟩
  endEntity := fun _ => true
  parseX509 := exampleX509
  readable := fun _ => true
  depth := 6
  verifyForUsage := fun leaf anchors supplied now =>
    if (exampleX509 leaf).any (chainsWithin anchors (supplied.filterMap exampleX509) now 6) then none
    else some (.other "unknown issuer")
  verify_iff := by
    intro leaf anchors supplied now
    rw [ite_eq_left_iff]
    cases exampleX509 leaf with
    | none => simp
    | some c => simp

def exampleAnchors : List (TrustAnchor Nat) := [⟨[9], 1⟩]

/-- Without the second certificate revoked leaves are rejected. -/
theorem leaf_alone_rejected :
    RejectsRevoked exampleLib [1] "example.com".toList exampleAnchors 50 := by
  apply (revoked_rejected_iff exampleLib _ _ _ _).mpr
  rintro leaf intermediates ⟨leafDer, intermediatesDer, hpem, -, hleaf, hrest⟩ - - -
  cases hpem
  cases hleaf
  cases hrest
  exact ⟨by decide +kernel, rfl⟩

/-- With it the signer's list of the leaf is not heard. -/
theorem decoy_accepted :
    ¬RejectsRevoked exampleLib [1, 2] "example.com".toList exampleAnchors 50 := by
  intro h
  have hparsed : Parsed exampleLib [1, 2] (exampleCert 1 9 3 1 ["http://ca/crl"])
      [exampleCert 9 9 2 2 []] := ⟨⟨[1], [[2]], rfl, rfl, rfl, rfl⟩⟩
  have hlist := (h fun _ => some (.crl (signerList (exampleCert 1 9 3 1 ["http://ca/crl"])))).1
  apply hlist _ _ hparsed
  · exact ⟨"http://ca/crl".toList, by decide +kernel, _, rfl, by decide +kernel⟩
  · decide +kernel

end Lyra.Bimi
