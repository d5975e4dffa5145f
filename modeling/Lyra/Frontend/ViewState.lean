import Lyra.Frontend.MultiSelect
import Lyra.Push.Diff
import Mathlib.Data.List.Nodup

/-!
# The persisted view state

What `persist-view-state.ts` saves of the stores `ui.ts` and `notifications.ts`, and how it is
restored into a fresh store: through the setters, which reset each other's fields, and only where
the saved value is not null and not empty.

* `Selects.run`: no setter leaves both a folder and a role selected;
* `restored_iff`: which states come back as they were saved.
-/

namespace Lyra.ViewState

open Lyra.MultiSelect Lyra.Push

/-! ## The store -/

structure AccountExpansion where
  expanded : Bool
  folderIds : List Text
  deriving DecidableEq

/-- A `Record` by account id; a key stands once. -/
structure FolderExpansion where
  entries : List (Text × AccountExpansion)
  keys : (entries.map Prod.fst).Nodup

/-- `{ ...map, [key]: value }`. -/
def setEntry {α : Type} (entries : List (Text × α)) (key : Text) (value : α) : List (Text × α) :=
  if key ∈ entries.map Prod.fst then
    entries.map fun entry => if entry.1 = key then (key, value) else entry
  else entries ++ [(key, value)]

theorem nodup_setEntry {α : Type} {entries : List (Text × α)}
    (h : (entries.map Prod.fst).Nodup) (key : Text) (value : α) :
    ((setEntry entries key value).map Prod.fst).Nodup := by
  unfold setEntry
  split
  · rw [List.map_map]
    have hsame : (Prod.fst ∘ fun entry => if entry.1 = key then (key, value) else entry) =
        (Prod.fst : Text × α → Text) := by
      funext entry
      simp only [Function.comp]
      split
      · rename_i hkey
        exact hkey.symm
      · rfl
    rw [hsame]
    exact h
  · rename_i hkey
    rw [List.map_append]
    refine List.nodup_append.mpr ⟨h, List.nodup_singleton _, ?_⟩
    intro a ha b hb he
    rw [he, List.mem_singleton.mp hb] at ha
    exact hkey ha

def FolderExpansion.set (map : FolderExpansion) (key : Text) (value : AccountExpansion) :
    FolderExpansion :=
  ⟨setEntry map.entries key value, nodup_setEntry map.keys key value⟩

inductive ListTab
  | all
  | unread
  deriving DecidableEq

inductive ThemeMode
  | light
  | dark
  | system
  deriving DecidableEq

structure NotificationPrefs where
  enabled : Bool
  mutedFolderIds : List Text
  mutedThreadIds : List Text
  deriving DecidableEq

/-- The fields of the store that are saved or that their setters write, with the notification
preferences. -/
structure UIState where
  selectedAccountId : Text
  selectedFolderId : Option Text
  selectedFolderRole : Option Text
  selectedMessageId : Option Text
  selection : ConversationSelection
  listTab : ListTab
  folderExpansion : FolderExpansion
  accountOrder : List Text
  defaultAccountId : Option Text
  favoritesAllInboxesExpanded : Option Bool
  theme : ThemeMode
  notificationPrefs : NotificationPrefs

def allAccounts : Text := "all".toList

def inboxRole : Text := "inbox".toList

/-- A fresh store; the theme and the preferences are those of the browser. -/
def UIState.fresh (theme : ThemeMode) (prefs : NotificationPrefs) : UIState where
  selectedAccountId := allAccounts
  selectedFolderId := none
  selectedFolderRole := some inboxRole
  selectedMessageId := none
  selection := emptySelection
  listTab := .all
  folderExpansion := ⟨[], List.nodup_nil⟩
  accountOrder := []
  defaultAccountId := none
  favoritesAllInboxesExpanded := none
  theme := theme
  notificationPrefs := prefs

/-- The setters that write one of the fields. -/
inductive Setter
  | setSelectedAccount (id : Text)
  | setSelectedFolder (id : Option Text)
  | setSelectedFolderRole (role : Option Text)
  | setSelectedMessage (id : Option Text)
  | applyConversationSelection (sel : ConversationSelection) (messageId : Option Text)
  | clearConversationSelection
  | setListTab (tab : ListTab)
  | setAccountExpanded (accountId : Text) (expanded : Bool)
  | toggleFolderExpanded (accountId folderId : Text)
  | setFolderExpansion (map : FolderExpansion)
  | setAccountOrder (ids : List Text)
  | setDefaultAccount (id : Option Text)
  | setFavoritesAllInboxesExpanded (expanded : Bool)
  | setTheme (theme : ThemeMode)
  | writeNotificationPrefs (prefs : NotificationPrefs)
  | setFolderMuted (folderId : Text) (muted : Bool)
  | setThreadMuted (threadId : Text) (muted : Bool)

/-- Adding to the `Set` of a list, or deleting from it. -/
def setMuted (ids : List Text) (id : Text) (muted : Bool) : List Text :=
  let next := ids.eraseDups
  if muted then (if id ∈ next then next else next ++ [id]) else next.filter (· ≠ id)

def toggleFolder (current : AccountExpansion) (folderId : Text) : AccountExpansion :=
  { current with
    folderIds :=
      if folderId ∈ current.folderIds then current.folderIds.filter (· ≠ folderId)
      else current.folderIds ++ [folderId] }

def UIState.apply (s : UIState) : Setter → UIState
  | .setSelectedAccount id =>
    { s with
      selectedAccountId := id
      selectedFolderId := none
      selectedFolderRole := if id = allAccounts then some inboxRole else none
      selectedMessageId := none
      selection := emptySelection }
  | .setSelectedFolder id =>
    { s with
      selectedFolderId := id
      selectedFolderRole := none
      selectedMessageId := none
      selection := emptySelection }
  | .setSelectedFolderRole role =>
    { s with
      selectedFolderRole := role
      selectedFolderId := none
      selectedMessageId := none
      selection := emptySelection }
  | .setSelectedMessage id => { s with selectedMessageId := id, selection := emptySelection }
  | .applyConversationSelection sel messageId =>
    { s with selection := sel, selectedMessageId := messageId }
  | .clearConversationSelection => { s with selection := emptySelection }
  | .setListTab tab => { s with listTab := tab }
  | .setAccountExpanded accountId expanded =>
    let folderIds := ((s.folderExpansion.entries.lookup accountId).map (·.folderIds)).getD []
    { s with folderExpansion := s.folderExpansion.set accountId ⟨expanded, folderIds⟩ }
  | .toggleFolderExpanded accountId folderId =>
    let current := (s.folderExpansion.entries.lookup accountId).getD ⟨false, []⟩
    { s with folderExpansion := s.folderExpansion.set accountId (toggleFolder current folderId) }
  | .setFolderExpansion map => { s with folderExpansion := map }
  | .setAccountOrder ids => { s with accountOrder := ids }
  | .setDefaultAccount id => { s with defaultAccountId := id }
  | .setFavoritesAllInboxesExpanded expanded =>
    { s with favoritesAllInboxesExpanded := some expanded }
  | .setTheme theme => { s with theme := theme }
  | .writeNotificationPrefs prefs => { s with notificationPrefs := prefs }
  | .setFolderMuted folderId muted =>
    let ids := setMuted s.notificationPrefs.mutedFolderIds folderId muted
    { s with notificationPrefs := { s.notificationPrefs with mutedFolderIds := ids } }
  | .setThreadMuted threadId muted =>
    let ids := setMuted s.notificationPrefs.mutedThreadIds threadId muted
    { s with notificationPrefs := { s.notificationPrefs with mutedThreadIds := ids } }

def UIState.run (s : UIState) (setters : List Setter) : UIState := setters.foldl UIState.apply s

/-! ## Saving -/

def textOrNull (s : Option Text) : Json := s.elim .null .str

def textList (l : List Text) : Json := .arr (l.map .str)

def ListTab.name : ListTab → Text
  | .all => "all".toList
  | .unread => "unread".toList

def ThemeMode.name : ThemeMode → Text
  | .light => "light".toList
  | .dark => "dark".toList
  | .system => "system".toList

def AccountExpansion.json (e : AccountExpansion) : Json :=
  .obj [("expanded".toList, .bool e.expanded), ("folderIds".toList, textList e.folderIds)]

def FolderExpansion.json (map : FolderExpansion) : Json :=
  .obj (map.entries.map fun entry => (entry.1, entry.2.json))

def NotificationPrefs.json (prefs : NotificationPrefs) : Json :=
  .obj
    [("enabled".toList, .bool prefs.enabled),
      ("mutedFolderIds".toList, textList prefs.mutedFolderIds),
      ("mutedThreadIds".toList, textList prefs.mutedThreadIds)]

/-- `currentUiState`, as it is parsed again. -/
def currentUiState (s : UIState) : Json :=
  .obj
    [("selectedAccountId".toList, .str s.selectedAccountId),
      ("selectedFolderId".toList, textOrNull s.selectedFolderId),
      ("selectedFolderRole".toList, textOrNull s.selectedFolderRole),
      ("selectedMessageId".toList, textOrNull s.selectedMessageId),
      ("listTab".toList, .str s.listTab.name),
      ("folderExpansion".toList, s.folderExpansion.json),
      ("accountOrder".toList, textList s.accountOrder),
      ("defaultAccountId".toList, textOrNull s.defaultAccountId),
      ("favoritesAllInboxesExpanded".toList, s.favoritesAllInboxesExpanded.elim .null .bool),
      ("theme".toList, .str s.theme.name),
      ("notificationPrefs".toList, s.notificationPrefs.json)]

/-! ## Restoring -/

/-- `typeof v === 'string' && v`. -/
def nonEmptyText : Option Json → Option Text
  | some (.str s) => if s = [] then none else some s
  | _ => none

def stringList : Option Json → List Text
  | some (.arr items) => items.filterMap fun
    | .str s => some s
    | _ => none
  | _ => []

def parseExpansion : Json → Option AccountExpansion
  | .obj o =>
    match Json.field o "expanded", Json.field o "folderIds" with
    | some (.bool expanded), some (.arr items) => some ⟨expanded, stringList (some (.arr items))⟩
    | _, _ => none
  | _ => none

/-- `Object.entries` of a value that passes `typeof v === 'object'`. -/
def objectEntries : Json → Option (List (Text × Json))
  | .obj fields => some fields
  | .arr items => some (items.zipIdx.map fun item => ((toString item.2).toList, item.1))
  | _ => none

/-- The loop over the saved expansion. -/
def readExpansion (entries : List (Text × Json)) : FolderExpansion :=
  entries.foldl (fun map entry =>
    match parseExpansion entry.2 with
    | some parsed => map.set entry.1 parsed
    | none => map) ⟨[], List.nodup_nil⟩

def readListTab : Option Json → Option ListTab
  | some (.str s) =>
    if s = "all".toList then some .all else if s = "unread".toList then some .unread else none
  | _ => none

def readTheme : Option Json → Option ThemeMode
  | some (.str s) =>
    if s = "light".toList then some .light
    else if s = "dark".toList then some .dark
    else if s = "system".toList then some .system
    else none
  | _ => none

def readPrefs : Option Json → Option NotificationPrefs
  | some (.obj o) => some
      { enabled :=
          match Json.field o "enabled" with
          | some (.bool enabled) => enabled
          | _ => false
        mutedFolderIds := stringList (Json.field o "mutedFolderIds")
        mutedThreadIds := stringList (Json.field o "mutedThreadIds") }
  | some (.arr _) => some ⟨false, [], []⟩
  | _ => none

/-- A setter is called where there is a value. -/
def UIState.restore {α : Type} (s : UIState) (setter : α → Setter) (value : Option α) : UIState :=
  match value with
  | some value => s.apply (setter value)
  | none => s

def UIState.restoreFolder (s : UIState) (folderId folderRole : Option Text) : UIState :=
  match folderId with
  | some id => s.apply (.setSelectedFolder (some id))
  | none => s.restore (fun role => .setSelectedFolderRole (some role)) folderRole

def applyViewState (s : UIState) : Json → UIState
  | .obj o =>
    let s := s.restore .setSelectedAccount (nonEmptyText (Json.field o "selectedAccountId"))
    let s := s.restoreFolder (nonEmptyText (Json.field o "selectedFolderId"))
      (nonEmptyText (Json.field o "selectedFolderRole"))
    let s := s.restore (fun entries => .setFolderExpansion (readExpansion entries))
      ((Json.field o "folderExpansion").bind objectEntries)
    let s := s.restore (fun items => .setAccountOrder (stringList (some (.arr items))))
      (match Json.field o "accountOrder" with
      | some (.arr items) => some items
      | _ => none)
    let s := s.restore (fun id => .setDefaultAccount (some id))
      (nonEmptyText (Json.field o "defaultAccountId"))
    let s := s.restore .setListTab (readListTab (Json.field o "listTab"))
    let s := s.restore .setFavoritesAllInboxesExpanded
      (match Json.field o "favoritesAllInboxesExpanded" with
      | some (.bool expanded) => some expanded
      | _ => none)
    let s := s.restore .setTheme (readTheme (Json.field o "theme"))
    let s := s.restore .writeNotificationPrefs (readPrefs (Json.field o "notificationPrefs"))
    -- the account and the folder reset the message
    s.restore (fun id => .setSelectedMessage (some id))
      (nonEmptyText (Json.field o "selectedMessageId"))
  | _ => s

/-- A reload saves what was saved before. -/
def RoundTrips (fresh s : UIState) : Prop :=
  currentUiState (applyViewState fresh (currentUiState s)) = currentUiState s

/-- No saved text is empty, and the view over all accounts has a folder or a role. -/
structure Restorable (s : UIState) : Prop where
  account : s.selectedAccountId ≠ []
  folder : s.selectedFolderId ≠ some []
  role : s.selectedFolderRole ≠ some []
  message : s.selectedMessageId ≠ some []
  defaultAccount : s.defaultAccountId ≠ some []
  unified : s.selectedAccountId = allAccounts →
    s.selectedFolderId.isSome ∨ s.selectedFolderRole.isSome

/-! ## Reading what was saved -/

section Fields

theorem nonEmptyText_str (s : Text) :
    nonEmptyText (some (.str s)) = (some s).filter (· ≠ []) := by
  by_cases hs : s = [] <;> simp [nonEmptyText, Option.filter, hs]

theorem nonEmptyText_textOrNull (s : Option Text) :
    nonEmptyText (some (textOrNull s)) = s.filter (· ≠ []) := by
  cases s with
  | none => rfl
  | some s => exact nonEmptyText_str s

theorem stringList_textList (l : List Text) : stringList (some (textList l)) = l := by
  rw [textList, stringList, List.filterMap_map]
  exact List.filterMap_some

theorem parseExpansion_json (e : AccountExpansion) : parseExpansion e.json = some e := by
  show some (AccountExpansion.mk e.expanded (stringList (some (textList e.folderIds)))) = _
  rw [stringList_textList]

theorem readListTab_name (tab : ListTab) : readListTab (some (.str tab.name)) = some tab := by
  cases tab <;> rfl

theorem readTheme_name (theme : ThemeMode) : readTheme (some (.str theme.name)) = some theme := by
  cases theme <;> rfl

theorem readPrefs_json (prefs : NotificationPrefs) : readPrefs (some prefs.json) = some prefs := by
  have hread : readPrefs (some prefs.json) =
      some (NotificationPrefs.mk prefs.enabled (stringList (some (textList prefs.mutedFolderIds)))
        (stringList (some (textList prefs.mutedThreadIds)))) := by
    simp only [NotificationPrefs.json, readPrefs, Json.field,
      show "enabled".toList = _ from String.toList_ofList,
      show "mutedFolderIds".toList = _ from String.toList_ofList,
      show "mutedThreadIds".toList = _ from String.toList_ofList]
    rfl
  rw [hread, stringList_textList, stringList_textList]

theorem FolderExpansion.ext {m n : FolderExpansion} (h : m.entries = n.entries) : m = n := by
  cases m
  cases n
  cases h
  rfl

/-- A key that is new goes to the end, so that the entries come back in their order. -/
theorem readExpansion_json (map : FolderExpansion) :
    readExpansion (map.entries.map fun entry => (entry.1, entry.2.json)) = map := by
  have hfold : ∀ (rest : List (Text × AccountExpansion)) (done : FolderExpansion),
      ((done.entries ++ rest).map Prod.fst).Nodup →
      ((rest.map fun entry => (entry.1, entry.2.json)).foldl (fun map entry =>
        match parseExpansion entry.2 with
        | some parsed => map.set entry.1 parsed
        | none => map) done).entries = done.entries ++ rest := by
    intro rest
    induction rest with
    | nil => exact fun done _ => (List.append_nil _).symm
    | cons entry rest ih =>
      intro done hkeys
      have hnew : entry.1 ∉ done.entries.map Prod.fst := by
        rw [List.map_append, List.map_cons, List.nodup_middle, List.nodup_cons] at hkeys
        exact fun h => hkeys.1 (List.mem_append_left _ h)
      have hset : (done.set entry.1 entry.2).entries = done.entries ++ [entry] := if_neg hnew
      rw [List.map_cons, List.foldl_cons, parseExpansion_json]
      have hdone := ih (done.set entry.1 entry.2) (by rw [hset, List.append_assoc]; exact hkeys)
      rw [hset, List.append_assoc] at hdone
      exact hdone
  exact FolderExpansion.ext (hfold map.entries ⟨[], List.nodup_nil⟩ map.keys)

theorem textOrNull_inj {s t : Option Text} (h : textOrNull s = textOrNull t) : s = t := by
  cases s with
  | none =>
    cases t with
    | none => rfl
    | some t => cases h
  | some s =>
    cases t with
    | none => cases h
    | some t => rw [Json.str.inj h]

end Fields

/-! ## Restoring what was saved -/

section Restore

variable {s : UIState}

/-- The setters one after the other, in a fresh store. -/
theorem restore_fields (theme : ThemeMode) (prefs : NotificationPrefs) (s : UIState) :
    ∃ sel, applyViewState (.fresh theme prefs) (currentUiState s) =
      { s with
        selectedAccountId := ((some s.selectedAccountId).filter (· ≠ [])).getD allAccounts
        selectedFolderId := s.selectedFolderId.filter (· ≠ [])
        selectedFolderRole :=
          if (s.selectedFolderId.filter (· ≠ [])).isSome then none
          else (s.selectedFolderRole.filter (· ≠ [])).or
            (if ((some s.selectedAccountId).filter (· ≠ [])).getD allAccounts = allAccounts then
              some inboxRole else none)
        selectedMessageId := s.selectedMessageId.filter (· ≠ [])
        selection := sel
        defaultAccountId := s.defaultAccountId.filter (· ≠ []) } := by
  have hsaved : applyViewState (.fresh theme prefs) (currentUiState s) =
      ((((((((((UIState.fresh theme prefs).restore .setSelectedAccount
        (nonEmptyText (some (.str s.selectedAccountId)))).restoreFolder
        (nonEmptyText (some (textOrNull s.selectedFolderId)))
        (nonEmptyText (some (textOrNull s.selectedFolderRole)))).apply
        (.setFolderExpansion (readExpansion (s.folderExpansion.entries.map fun entry =>
          (entry.1, entry.2.json))))).apply
        (.setAccountOrder (stringList (some (textList s.accountOrder))))).restore
        (fun id => .setDefaultAccount (some id))
        (nonEmptyText (some (textOrNull s.defaultAccountId)))).restore .setListTab
        (readListTab (some (.str s.listTab.name)))).restore .setFavoritesAllInboxesExpanded
        (match some (s.favoritesAllInboxesExpanded.elim Json.null Json.bool) with
        | some (.bool expanded) => some expanded
        | _ => none)).restore .setTheme
        (readTheme (some (.str s.theme.name)))).restore .writeNotificationPrefs
        (readPrefs (some s.notificationPrefs.json))).restore
        (fun id => .setSelectedMessage (some id))
        (nonEmptyText (some (textOrNull s.selectedMessageId))) := by
    simp only [currentUiState, applyViewState, Json.field,
      show "selectedAccountId".toList = _ from String.toList_ofList,
      show "selectedFolderId".toList = _ from String.toList_ofList,
      show "selectedFolderRole".toList = _ from String.toList_ofList,
      show "selectedMessageId".toList = _ from String.toList_ofList,
      show "listTab".toList = _ from String.toList_ofList,
      show "folderExpansion".toList = _ from String.toList_ofList,
      show "accountOrder".toList = _ from String.toList_ofList,
      show "defaultAccountId".toList = _ from String.toList_ofList,
      show "favoritesAllInboxesExpanded".toList = _ from String.toList_ofList,
      show "theme".toList = _ from String.toList_ofList,
      show "notificationPrefs".toList = _ from String.toList_ofList]
    rfl
  rw [hsaved, nonEmptyText_str, readExpansion_json, stringList_textList, readListTab_name,
    readTheme_name, readPrefs_json]
  simp only [nonEmptyText_textOrNull]
  generalize (some s.selectedAccountId).filter (· ≠ []) = account
  generalize s.selectedFolderId.filter (· ≠ []) = folder
  generalize s.selectedFolderRole.filter (· ≠ []) = role
  generalize s.selectedMessageId.filter (· ≠ []) = message
  generalize s.defaultAccountId.filter (· ≠ []) = defaultAccount
  cases hfav : s.favoritesAllInboxesExpanded <;> cases account <;> cases folder <;> cases role <;>
    cases defaultAccount <;> cases message <;> exact ⟨_, rfl⟩

/-- A folder and a role are not both selected. -/
def UIState.Selects (s : UIState) : Prop := s.selectedFolderId = none ∨ s.selectedFolderRole = none

theorem UIState.Selects.apply (h : s.Selects) (setter : Setter) : (s.apply setter).Selects := by
  cases setter with
  | setSelectedAccount id => exact .inl rfl
  | setSelectedFolder id => exact .inr rfl
  | setSelectedFolderRole role => exact .inl rfl
  | _ => exact h

theorem UIState.Selects.run (h : s.Selects) (setters : List Setter) : (s.run setters).Selects := by
  induction setters generalizing s with
  | nil => exact h
  | cons setter setters ih => exact ih (h.apply setter)

theorem filter_eq_self_iff {v : Option Text} : v.filter (· ≠ []) = v ↔ v ≠ some [] := by
  cases v with
  | none => simp
  | some v => by_cases hv : v = [] <;> simp [Option.filter, hv]

theorem saved_fields {s t : UIState} (h : currentUiState s = currentUiState t) :
    s.selectedAccountId = t.selectedAccountId ∧ s.selectedFolderId = t.selectedFolderId ∧
      s.selectedFolderRole = t.selectedFolderRole ∧ s.selectedMessageId = t.selectedMessageId ∧
      s.defaultAccountId = t.defaultAccountId := by
  simp only [currentUiState, Json.obj.injEq, Json.str.injEq, List.cons.injEq, Prod.mk.injEq,
    true_and] at h
  obtain ⟨haccount, hfolder, hrole, hmessage, -, -, -, hdefault, -⟩ := h
  exact ⟨haccount, textOrNull_inj hfolder, textOrNull_inj hrole, textOrNull_inj hmessage,
    textOrNull_inj hdefault⟩

theorem restorable_of_roundTrips {theme : ThemeMode} {prefs : NotificationPrefs}
    (h : RoundTrips (.fresh theme prefs) s) : Restorable s := by
  obtain ⟨sel, hfields⟩ := restore_fields theme prefs s
  unfold RoundTrips at h
  rw [hfields] at h
  obtain ⟨haccount, hfolder, hrole, hmessage, hdefault⟩ := saved_fields h
  dsimp only at haccount hfolder hrole hmessage hdefault
  have hne : s.selectedAccountId ≠ [] := by
    intro hempty
    rw [hempty] at haccount
    cases haccount
  rw [haccount, hfolder] at hrole
  refine ⟨hne, filter_eq_self_iff.mp hfolder, ?_, filter_eq_self_iff.mp hmessage,
    filter_eq_self_iff.mp hdefault, ?_⟩
  · intro hempty
    rw [hempty] at hrole
    split at hrole
    · cases hrole
    · split at hrole <;> cases hrole
  · intro hall
    by_contra hnone
    simp only [not_or, Bool.not_eq_true, Option.isSome_eq_false_iff, Option.isNone_iff_eq_none]
      at hnone
    rw [hnone.1, hnone.2, hall] at hrole
    cases hrole

theorem roundTrips_of_restorable (hsel : s.Selects) (h : Restorable s) (theme : ThemeMode)
    (prefs : NotificationPrefs) : RoundTrips (.fresh theme prefs) s := by
  obtain ⟨sel, hfields⟩ := restore_fields theme prefs s
  have haccount : (some s.selectedAccountId).filter (· ≠ []) = some s.selectedAccountId :=
    filter_eq_self_iff.mpr fun he => h.account (Option.some.inj he)
  unfold RoundTrips
  rw [hfields, haccount, filter_eq_self_iff.mpr h.folder, filter_eq_self_iff.mpr h.role,
    filter_eq_self_iff.mpr h.message, filter_eq_self_iff.mpr h.defaultAccount, Option.getD_some]
  have hrole : (if s.selectedFolderId.isSome then none
      else s.selectedFolderRole.or
        (if s.selectedAccountId = allAccounts then some inboxRole else none)) =
      s.selectedFolderRole := by
    split
    case isTrue hfolder =>
      rcases hsel with hnone | hnone
      · rw [hnone] at hfolder
        cases hfolder
      · exact hnone.symm
    case isFalse hfolder =>
      cases hrole : s.selectedFolderRole with
      | some role => rfl
      | none =>
        rw [Option.none_or]
        split
        case isTrue hall =>
          rcases h.unified hall with hsome | hsome
          · exact absurd hsome hfolder
          · rw [hrole] at hsome
            cases hsome
        case isFalse => rfl
  rw [hrole]
  rfl

end Restore

/-- A state that the setters reach from a fresh store comes back from its saved form as it was
saved, in any browser, exactly if no saved text is empty and a view over all accounts has a folder
or a role. -/
theorem restored_iff (theme theme' : ThemeMode) (prefs prefs' : NotificationPrefs)
    (setters : List Setter) :
    RoundTrips (.fresh theme' prefs') ((UIState.fresh theme prefs).run setters) ↔
      Restorable ((UIState.fresh theme prefs).run setters) := by
  have hfresh : (UIState.fresh theme prefs).Selects := .inl rfl
  exact ⟨restorable_of_roundTrips, fun h => roundTrips_of_restorable (hfresh.run setters) h _ _⟩

/-- All accounts without a folder and without a role come back with the inbox. -/
theorem not_restored_unified :
    ¬RoundTrips (.fresh .system ⟨false, [], []⟩)
      ((UIState.fresh .system ⟨false, [], []⟩).run [.setSelectedFolder none]) := by
  intro h
  have hsome := (restorable_of_roundTrips h).unified rfl
  revert hsome
  decide

end Lyra.ViewState
