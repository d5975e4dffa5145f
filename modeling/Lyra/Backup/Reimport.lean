import Lyra.Backup.Import

/-!
# Importing an archive again

What a second import of an archive, right after the first, does to accounts and contacts.  The
accounts are searched under the keys that the first import wrote; contacts go to the account that
`pick_pim_account` takes, so that they are found again where the accounts are mapped as before.

* `mergeAccountDocs_again`: no account is inserted, and the map is the same where the documents of
  one account carry a credential alike;
* `mergeCards_again`: no contact is inserted into the account that has got them;
* `accounts_again`, `contacts_again`: so for the import as a whole.
-/

namespace Lyra.Backup

open Lyra.Lib

variable {ops : ImportOps}

/-! ## Accounts -/

/-- The merge key of an account document. -/
def AccountDoc.key (ops : ImportOps) (doc : AccountDoc) : Option (Text × Text) :=
  doc.emailAddress.map fun email => (doc.mergeProtocol, ops.text.toLowercase email)

def AccountRow.key (ops : ImportOps) (a : AccountRow) : Text × Text :=
  (a.protocol, ops.text.toLowercase a.emailAddress)

/-- Documents of one account carry a credential alike. -/
def CredentialsAlike (ops : ImportOps) (docs : List (Option AccountDoc)) : Prop :=
  ∀ d d', some d ∈ docs → some d' ∈ docs → (d.key ops).isSome → d.key ops = d'.key ops →
    d.credential.isSome = d'.credential.isSome

theorem CredentialsAlike.tail {doc : Option AccountDoc} {docs : List (Option AccountDoc)}
    (h : CredentialsAlike ops (doc :: docs)) : CredentialsAlike ops docs :=
  fun d d' hd hd' => h d d' (List.mem_cons_of_mem _ hd) (List.mem_cons_of_mem _ hd')

theorem sameAccount_iff {protocol email : Text} {a : AccountRow} :
    sameAccount ops protocol email a = true ↔
      a.key ops = (protocol, ops.text.toLowercase email) := by
  simp [sameAccount, AccountRow.key]

section Documents

variable {run : ImportRun} {accounts table : List AccountRow} {doc : AccountDoc} {email : Text}
  {row : AccountRow}

theorem AccountDoc.key_of_email (h : doc.emailAddress = some email) :
    doc.key ops = some (doc.mergeProtocol, ops.text.toLowercase email) := by
  rw [AccountDoc.key, h]
  rfl

theorem insertAccount_key (ops : ImportOps)
    (h : insertAccount run accounts doc email doc.mergeProtocol = some row) :
    row.key ops = (doc.mergeProtocol, ops.text.toLowercase email) ∧ doc.credential.isSome := by
  unfold insertAccount at h
  obtain ⟨credential, hc, rfl⟩ := Option.map_eq_some_iff.mp h
  rw [hc]
  exact ⟨rfl, rfl⟩

/-- A document appends a row of its own account, if any. -/
theorem mergeAccountDoc_rows (ops : ImportOps) (run : ImportRun) (accounts : List AccountRow)
    (doc : AccountDoc) :
    ∃ rows, (mergeAccountDoc ops run accounts doc).2 = accounts ++ rows ∧
      ∀ r ∈ rows, doc.key ops = some (r.key ops) ∧ doc.credential.isSome := by
  have hnone : ∀ r ∈ ([] : List AccountRow), doc.key ops = some (r.key ops) ∧
      doc.credential.isSome := List.forall_mem_nil _
  unfold mergeAccountDoc
  split
  · exact ⟨[], (List.append_nil _).symm, hnone⟩
  · rename_i email hemail
    split
    · exact ⟨[], (List.append_nil _).symm, hnone⟩
    · split
      · rename_i row hrow
        obtain ⟨hkey, hcredential⟩ := insertAccount_key ops hrow
        refine ⟨[row], rfl, ?_⟩
        intro r hr
        obtain rfl := List.mem_singleton.mp hr
        exact ⟨(AccountDoc.key_of_email hemail).trans (congrArg some hkey.symm), hcredential⟩
      · exact ⟨[], (List.append_nil _).symm, hnone⟩

theorem find_extended (h : accounts <+: table) {p : AccountRow → Bool} {a : AccountRow}
    (ha : accounts.find? p = some a) : table.find? p = some a := by
  obtain ⟨t, rfl⟩ := h
  rw [List.find?_append, ha, Option.some_or]

/-- A table that has what the document left has got its account.  A document without a credential
finds it where another one inserted it. -/
theorem mergeAccountDoc_again (run' : ImportRun)
    (h : (mergeAccountDoc ops run accounts doc).2 <+: table) :
    (mergeAccountDoc ops run' table doc).2 = table ∧
      ((doc.credential = none → ∀ r ∈ table, doc.key ops = some (r.key ops) → r ∈ accounts) →
        mergeAccountDoc ops run' table doc = ((mergeAccountDoc ops run accounts doc).1, table)) := by
  unfold mergeAccountDoc at h ⊢
  split at h
  · exact ⟨rfl, fun _ => rfl⟩
  · rename_i email hemail
    split at h
    · rename_i found hfind
      rw [find_extended h hfind]
      exact ⟨rfl, fun _ => rfl⟩
    · rename_i hfind
      split at h
      · rename_i row hrow
        have hlast : (accounts ++ [row]).find? (sameAccount ops doc.mergeProtocol email) =
            some row := by
          rw [List.find?_append, hfind, Option.none_or, List.find?_cons,
            sameAccount_iff.mpr (insertAccount_key ops hrow).1]
        rw [find_extended h hlast]
        exact ⟨rfl, fun _ => rfl⟩
      · rename_i hrow
        have hcredential : doc.credential = none := Option.map_eq_none_iff.mp hrow
        cases hagain : table.find? (sameAccount ops doc.mergeProtocol email) with
        | none =>
          have hfails : insertAccount run' table doc email doc.mergeProtocol = none :=
            Option.map_eq_none_iff.mpr hcredential
          rw [hfails]
          exact ⟨rfl, fun _ => rfl⟩
        | some r =>
          refine ⟨rfl, ?_⟩
          intro hmine
          have hkey := List.find?_some hagain
          have hr := hmine hcredential r (List.mem_of_find?_eq_some hagain) (by
            rw [AccountDoc.key_of_email hemail, sameAccount_iff.mp hkey])
          exact absurd hkey (List.find?_eq_none.mp hfind r hr)

end Documents

theorem mergeAccountDocs_cons (run : ImportRun) (n : Nat) (idMap : List (Nat × AccountId))
    (accounts : List AccountRow) (doc : AccountDoc) (docs : List (Option AccountDoc)) :
    mergeAccountDocs ops run n idMap accounts (some doc :: docs) =
      mergeAccountDocs ops run (n + 1)
        (idMap ++ (mergeAccountDoc ops run accounts doc).1.toList.map (n, ·))
        (mergeAccountDoc ops run accounts doc).2 docs := rfl

/-- The merge of accounts only appends, rows of documents that carry a credential. -/
theorem mergeAccountDocs_rows (ops : ImportOps) (run : ImportRun)
    (docs : List (Option AccountDoc)) (n : Nat) (idMap : List (Nat × AccountId))
    (accounts : List AccountRow) :
    ∃ rows, (mergeAccountDocs ops run n idMap accounts docs).2 = accounts ++ rows ∧
      ∀ r ∈ rows, ∃ d, some d ∈ docs ∧ d.key ops = some (r.key ops) ∧ d.credential.isSome := by
  induction docs generalizing n idMap accounts with
  | nil => exact ⟨[], (List.append_nil _).symm, List.forall_mem_nil _⟩
  | cons doc docs ih =>
    cases doc with
    | none =>
      obtain ⟨rows, hrows, hdocs⟩ := ih (n + 1) idMap accounts
      refine ⟨rows, hrows, fun r hr => ?_⟩
      obtain ⟨d, hd, hkey⟩ := hdocs r hr
      exact ⟨d, List.mem_cons_of_mem _ hd, hkey⟩
    | some doc =>
      obtain ⟨own, hown, hkeys⟩ := mergeAccountDoc_rows ops run accounts doc
      obtain ⟨rows, hrows, hdocs⟩ := ih (n + 1)
        (idMap ++ (mergeAccountDoc ops run accounts doc).1.toList.map (n, ·))
        (mergeAccountDoc ops run accounts doc).2
      refine ⟨own ++ rows, ?_, fun r hr => ?_⟩
      · rw [← List.append_assoc, ← hown]
        exact hrows
      · rcases List.mem_append.mp hr with hr | hr
        · exact ⟨doc, List.mem_cons_self, hkeys r hr⟩
        · obtain ⟨d, hd, hkey⟩ := hdocs r hr
          exact ⟨d, List.mem_cons_of_mem _ hd, hkey⟩

/-- On the table that a merge left, merging the same documents inserts nothing.  It finds what the
first merge found or inserted, and an account besides where a document without a credential stands
before one of the same account that carries it. -/
theorem mergeAccountDocs_again (run run' : ImportRun) (docs : List (Option AccountDoc)) (n : Nat)
    (idMap : List (Nat × AccountId)) (accounts : List AccountRow) :
    (∀ n' idMap', (mergeAccountDocs ops run' n' idMap'
      (mergeAccountDocs ops run n idMap accounts docs).2 docs).2 =
        (mergeAccountDocs ops run n idMap accounts docs).2) ∧
    (CredentialsAlike ops docs →
      mergeAccountDocs ops run' n idMap (mergeAccountDocs ops run n idMap accounts docs).2 docs =
        mergeAccountDocs ops run n idMap accounts docs) := by
  induction docs generalizing n idMap accounts with
  | nil => exact ⟨fun _ _ => rfl, fun _ => rfl⟩
  | cons doc docs ih =>
    cases doc with
    | none => exact ⟨fun n' => (ih (n + 1) idMap accounts).1 (n' + 1),
        fun halike => (ih (n + 1) idMap accounts).2 halike.tail⟩
    | some doc =>
      simp only [mergeAccountDocs_cons]
      obtain ⟨hrows, hsame⟩ := ih (n + 1)
        (idMap ++ (mergeAccountDoc ops run accounts doc).1.toList.map (n, ·))
        (mergeAccountDoc ops run accounts doc).2
      obtain ⟨later, hlater, -⟩ := mergeAccountDocs_rows ops run docs (n + 1)
        (idMap ++ (mergeAccountDoc ops run accounts doc).1.toList.map (n, ·))
        (mergeAccountDoc ops run accounts doc).2
      obtain ⟨htable, hid⟩ := mergeAccountDoc_again run'
        (hlater ▸ List.prefix_append (mergeAccountDoc ops run accounts doc).2 later)
      constructor
      · intro n' idMap'
        rw [htable]
        exact hrows _ _
      · intro halike
        rw [hid ?_]
        · exact hsame halike.tail
        · intro hnone r hr hkey
          obtain ⟨rows, htable, hdocs⟩ :=
            mergeAccountDocs_rows ops run (some doc :: docs) n idMap accounts
          rw [← mergeAccountDocs_cons, htable] at hr
          rcases List.mem_append.mp hr with hr | hr
          · exact hr
          · obtain ⟨d, hd, hdkey, hcredential⟩ := hdocs r hr
            have hboth := halike doc d List.mem_cons_self hd (by rw [hkey]; rfl)
              (hkey.trans hdkey.symm)
            rw [hnone, hcredential] at hboth
            cases hboth

/-! ## Contacts -/

theorem mem_existingContactKeys {acc : AccountId} {contacts : List ContactRow} {key : Text} :
    key ∈ existingContactKeys ops contacts acc ↔ ∃ c ∈ contacts, c.accountId = acc ∧
      ∃ card, c.vcardBlob = some card ∧ cardKey ops card = key := by
  unfold existingContactKeys
  simp only [List.mem_map, List.mem_filterMap, List.mem_filter, beq_iff_eq]
  constructor
  · rintro ⟨card, ⟨c, ⟨hc, hacc⟩, hcard⟩, hkey⟩
    exact ⟨c, hc, hacc, card, hcard, hkey⟩
  · rintro ⟨c, hc, hacc, card, hcard, hkey⟩
    exact ⟨card, ⟨c, ⟨hc, hacc⟩, hcard⟩, hkey⟩

theorem mergeCards_again (acc : AccountId) (contacts : List ContactRow) (cards : List Text) :
    mergeCards ops acc (mergeCards ops acc contacts cards) cards =
      mergeCards ops acc contacts cards := by
  apply insertMissing_of_all
  intro card hcard
  by_cases hkey : cardKey ops card ∈ existingContactKeys ops contacts acc
  · obtain ⟨c, hc, hrest⟩ := mem_existingContactKeys.mp hkey
    exact mem_existingContactKeys.mpr ⟨c, (prefix_insertMissing contacts).subset hc, hrest⟩
  · obtain ⟨rs, hrow⟩ := exists_insertMissing hcard hkey contacts
    exact mem_existingContactKeys.mpr ⟨_, hrow, rfl, card, rfl, rfl⟩

/-! ## The sections -/

theorem mergeAccounts_again (run run' : ImportRun) (archive : Archive) (user : UserRow)
    (accounts : List AccountRow) :
    (mergeAccounts ops run' archive user (mergeAccounts ops run archive user accounts).2).2 =
        (mergeAccounts ops run archive user accounts).2 ∧
      (CredentialsAlike ops archive.accounts →
        mergeAccounts ops run' archive user (mergeAccounts ops run archive user accounts).2 =
          mergeAccounts ops run archive user accounts) := by
  obtain ⟨hrows, hsame⟩ := mergeAccountDocs_again run run' archive.accounts 0 [] accounts
  unfold mergeAccounts
  split
  · exact ⟨hrows 0 [], hsame⟩
  · exact ⟨rfl, fun _ => rfl⟩

/-- A second import inserts no account. -/
theorem accounts_again (run run' : ImportRun) (archive : Archive) (user : UserRow)
    (accounts : List AccountRow) :
    (mergeAccounts ops run' archive user (mergeAccounts ops run archive user accounts).2).2 =
      (mergeAccounts ops run archive user accounts).2 :=
  (mergeAccounts_again run run' archive user accounts).1

/-- A second import inserts no contact: they go to the account that has got them. -/
theorem contacts_again (run run' : ImportRun) (archive : Archive) (user : UserRow)
    (accounts : List AccountRow) (contacts : List ContactRow)
    (halike : CredentialsAlike ops archive.accounts) :
    let first := mergeAccounts ops run archive user accounts
    let second := mergeAccounts ops run' archive user first.2
    let merged := mergeContacts ops archive first.1 first.2 contacts
    mergeContacts ops archive second.1 second.2 merged = merged := by
  intro first second merged
  have hmap : second = first := (mergeAccounts_again run run' archive user accounts).2 halike
  rw [hmap]
  unfold merged mergeContacts
  cases archive.contacts with
  | none => rfl
  | some text =>
    cases pickPimAccount first.1 first.2 AccountRow.carddavUrl with
    | none => rfl
    | some acc => exact mergeCards_again acc contacts _

def plainImport : ImportOps := ⟨⟨id, Char.isWhitespace, fun _ => none⟩, fun _ => []⟩

/-- One account, and a contact. -/
def adaArchive : Archive where
  accounts := [some ⟨none, some "ada@x".toList, none, none, none, none, none, none, none, none, none,
    none, none, none, none, none, none, none, some "secret".toList, none, none, none⟩]
  contacts := some "BEGIN:VCARD\nUID:1\nEND:VCARD".toList

theorem contacts_again_ada :
    let first := mergeAccounts plainImport ⟨id⟩ adaArchive ⟨true⟩ []
    let second := mergeAccounts plainImport ⟨List.reverse⟩ adaArchive ⟨true⟩ first.2
    let merged := mergeContacts plainImport adaArchive first.1 first.2 []
    merged.length = 1 ∧ mergeContacts plainImport adaArchive second.1 second.2 merged = merged := by
  refine ⟨by decide +kernel, contacts_again _ _ _ _ _ _ ?_⟩
  intro d d' hd hd' _ _
  obtain rfl := Option.some.inj ((List.mem_singleton.mp hd).trans (List.mem_singleton.mp hd').symm)
  rfl

end Lyra.Backup
