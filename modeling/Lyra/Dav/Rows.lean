import Lyra.Dav.Sync

/-!
# The rows of a sync

The rows of a collection are seen through `storedEtag`, the entity tag under which an item is
stored, beside `etagAt`, the one it has on the server.

* `syncRows_spec`: what a sync of one collection does to the row of each item;
* `SyncedRows.upToDate`: a sync whose writes succeed brings the rows up to the server, if its
  token covered them.
-/

namespace Lyra.Dav

open Lyra.Lib

variable (srv : DavServer)

/-! ## Logs -/

theorem etagAt_append (old more : List Change) (href : Text) :
    etagAt (old ++ more) href = more.foldl (Change.apply href) (etagAt old href) :=
  List.foldl_append

theorem etagAt_untouched (old : List Change) {more : List Change} {href : Text}
    (h : ¬ Touched more href) :
    etagAt (old ++ more) href = etagAt old href := by
  rw [etagAt_append]
  generalize etagAt old href = etag
  induction more with
  | nil => rfl
  | cons c more ih =>
    have hc : c.href ≠ href := fun he => h ⟨c, List.mem_cons_self, he⟩
    have hstep : Change.apply href etag c = etag := by
      cases c with
      | put h' e => exact if_neg hc
      | delete h' => exact if_neg hc
    rw [List.foldl_cons, hstep]
    apply ih
    rintro ⟨c', hc', he⟩
    exact h ⟨c', List.mem_cons_of_mem _ hc', he⟩

theorem Touched.append_left {more meanwhile : List Change} {href : Text} (h : Touched more href) :
    Touched (more ++ meanwhile) href := by
  obtain ⟨c, hc, he⟩ := h
  exact ⟨c, List.mem_append_left _ hc, he⟩

theorem Touched.append_right {more meanwhile : List Change} {href : Text}
    (h : Touched meanwhile href) : Touched (more ++ meanwhile) href := by
  obtain ⟨c, hc, he⟩ := h
  exact ⟨c, List.mem_append_right _ hc, he⟩

/-! ## Rows -/

/-- A row that a sync stored: the content is the one of its entity tag. -/
def Stored (r : PimRow) : Prop :=
  r.collectionUrl = srv.collectionOf r.externalId ∧
    ∃ e, r.etag = some e ∧ r.data = srv.dataOf r.externalId e

structure RowsOk (rows : List PimRow) : Prop where
  ids : (rows.map PimRow.id).Nodup
  externalIds : (rows.map PimRow.externalId).Nodup
  stored : ∀ r ∈ rows, Stored srv r

/-- The entity tag under which an item is stored. -/
def storedEtag (rows : List PimRow) (href : Text) : Option Text :=
  (rows.find? fun r => r.externalId == href).bind PimRow.etag

/-- An item as the server would send it now or sent it before. -/
def Genuine (collection : Text) (item : DavItem) : Prop :=
  ∀ data, item.data = some data → srv.collectionOf item.href = collection ∧
    ∃ e, item.etag = some e ∧ data = srv.dataOf item.href e

variable {srv} {rows : List PimRow} {collection : Text} {calendar : Option Text}

theorem RowsOk.find_of_mem (h : RowsOk srv rows) {r : PimRow} (hr : r ∈ rows) :
    rows.find? (fun x => x.externalId == r.externalId) = some r := by
  cases hfind : rows.find? fun x => x.externalId == r.externalId with
  | none =>
    have hno := List.find?_eq_none.mp hfind r hr
    exact absurd (beq_self_eq_true r.externalId) hno
  | some x =>
    have hx := List.mem_of_find?_eq_some hfind
    have hbeq := List.find?_some hfind
    have he : x.externalId = r.externalId := eq_of_beq hbeq
    rw [List.inj_on_of_nodup_map h.externalIds hx hr he]

theorem RowsOk.storedEtag_of_mem (h : RowsOk srv rows) {r : PimRow} (hr : r ∈ rows) :
    storedEtag rows r.externalId = r.etag := by
  unfold storedEtag
  rw [h.find_of_mem hr]
  rfl

theorem RowsOk.mem_of_storedEtag (h : RowsOk srv rows) {href e : Text}
    (he : storedEtag rows href = some e) : ∃ r ∈ rows, r.externalId = href ∧
      r.collectionUrl = srv.collectionOf href ∧ r.data = srv.dataOf href e := by
  obtain ⟨r, hfind, hetag⟩ := Option.bind_eq_some_iff.mp he
  have hr := List.mem_of_find?_eq_some hfind
  have hbeq := List.find?_some hfind
  obtain rfl : r.externalId = href := eq_of_beq hbeq
  obtain ⟨hcoll, e', he', hdata⟩ := h.stored r hr
  obtain rfl : e' = e := Option.some.inj (he'.symm.trans hetag)
  exact ⟨r, hr, rfl, hcoll, hdata⟩

theorem storedEtag_none (h : RowsOk srv rows) {href : Text} :
    storedEtag rows href = none ↔ ∀ r ∈ rows, r.externalId ≠ href := by
  constructor
  · rintro hnone r hr rfl
    obtain ⟨_, e, he, _⟩ := h.stored r hr
    rw [h.storedEtag_of_mem hr, he] at hnone
    cases hnone
  · intro hno
    have hfind : rows.find? (fun r => r.externalId == href) = none := by
      apply List.find?_eq_none.mpr
      intro r hr hbeq
      exact hno r hr (eq_of_beq hbeq)
    unfold storedEtag
    rw [hfind]
    rfl

/-- One row is rewritten. -/
theorem RowsOk.update (h : RowsOk srv rows) {row : PimRow} (hrow : row ∈ rows)
    (write : PimRow → PimRow) (hid : ∀ r, (write r).id = r.id)
    (hext : ∀ r, (write r).externalId = r.externalId) (hnew : Stored srv (write row)) :
    RowsOk srv (rows.map fun r => if r.id = row.id then write r else r) ∧
      ∀ href, storedEtag (rows.map fun r => if r.id = row.id then write r else r) href =
        if href = row.externalId then (write row).etag else storedEtag rows href := by
  have hone : ∀ r ∈ rows, r.id = row.id → r = row :=
    fun r hr he => List.inj_on_of_nodup_map h.ids hr hrow he
  have hkeepId : (PimRow.id ∘ fun r => if r.id = row.id then write r else r) = PimRow.id := by
    funext r
    rw [Function.comp_apply]
    split
    · exact hid r
    · rfl
  have hkeepExt : (PimRow.externalId ∘ fun r => if r.id = row.id then write r else r) =
      PimRow.externalId := by
    funext r
    rw [Function.comp_apply]
    split
    · exact hext r
    · rfl
  refine ⟨⟨?_, ?_, ?_⟩, ?_⟩
  · rw [List.map_map, hkeepId]
    exact h.ids
  · rw [List.map_map, hkeepExt]
    exact h.externalIds
  · intro r hr
    obtain ⟨x, hx, rfl⟩ := List.mem_map.mp hr
    split
    · rename_i he
      exact (hone x hx he).symm ▸ hnew
    · exact h.stored x hx
  · intro href
    have hsame : ((fun r : PimRow => r.externalId == href) ∘
        fun r => if r.id = row.id then write r else r) = fun r => r.externalId == href := by
      funext r
      exact congrArg (· == href) (congrFun hkeepExt r)
    unfold storedEtag
    rw [List.find?_map, hsame]
    split
    · rename_i he
      rw [he, h.find_of_mem hrow, Option.map_some, Option.bind_some, if_pos rfl]
    · rename_i hne
      cases hold : rows.find? fun r => r.externalId == href with
      | none => rfl
      | some r =>
        have hbeq := List.find?_some hold
        have hr : r.id ≠ row.id := by
          intro he
          rw [hone r (List.mem_of_find?_eq_some hold) he] at hbeq
          exact hne (eq_of_beq hbeq).symm
        rw [Option.map_some, if_neg hr]

theorem RowsOk.insert (h : RowsOk srv rows) (new : PimRow) (hid : new.id ∉ rows.map PimRow.id)
    (hext : ∀ r ∈ rows, r.externalId ≠ new.externalId) (hnew : Stored srv new) :
    RowsOk srv (rows ++ [new]) ∧ ∀ href, storedEtag (rows ++ [new]) href =
      if href = new.externalId then new.etag else storedEtag rows href := by
  refine ⟨⟨?_, ?_, ?_⟩, ?_⟩
  · rw [List.map_append, List.nodup_append]
    refine ⟨h.ids, List.nodup_singleton _, ?_⟩
    rintro a ha b hb rfl
    exact hid (List.mem_singleton.mp hb ▸ ha)
  · rw [List.map_append, List.nodup_append]
    refine ⟨h.externalIds, List.nodup_singleton _, ?_⟩
    rintro a ha b hb rfl
    obtain ⟨r, hr, he⟩ := List.mem_map.mp ha
    exact hext r hr (he.trans (List.mem_singleton.mp hb))
  · intro r hr
    rcases List.mem_append.mp hr with hr | hr
    · exact h.stored r hr
    · exact List.mem_singleton.mp hr ▸ hnew
  · intro href
    unfold storedEtag
    rw [List.find?_append]
    split
    · rename_i he
      have hnone : rows.find? (fun r => r.externalId == href) = none := by
        apply List.find?_eq_none.mpr
        intro r hr hbeq
        exact hext r hr ((eq_of_beq hbeq).trans he)
      rw [hnone, Option.none_or, List.find?_singleton, if_pos (beq_iff_eq.mpr he.symm),
        Option.bind_some]
    · rename_i hne
      rw [List.find?_singleton, if_neg fun hbeq => hne (eq_of_beq hbeq).symm, Option.or_none]

theorem upsertItem_none (item : DavItem) (h : item.data = none) :
    upsertItem collection calendar rows item = rows := by
  unfold upsertItem
  rw [h]

variable (calendar) in
/-- The row that an item with content leaves. -/
theorem upsertItem_rows (h : RowsOk srv rows) {item : DavItem} (hitem : Genuine srv collection item)
    {data : Text} (hdata : item.data = some data) :
    RowsOk srv (upsertItem collection calendar rows item) ∧
      ∀ href, storedEtag (upsertItem collection calendar rows item) href =
        if href = item.href then item.etag else storedEtag rows href := by
  obtain ⟨hcoll, e, he, rfl⟩ := hitem data hdata
  unfold upsertItem
  rw [hdata]
  dsimp only
  cases hfind : rows.find? fun r => r.externalId == item.href with
  | some row =>
    have hrow := List.mem_of_find?_eq_some hfind
    have hbeq := List.find?_some hfind
    have hext : row.externalId = item.href := eq_of_beq hbeq
    dsimp only
    split
    · -- the same version is stored already
      rename_i hsame
      refine ⟨h, ?_⟩
      intro href
      split
      · rename_i hhref
        rw [hhref, ← hext, h.storedEtag_of_mem hrow, hsame.1]
      · rfl
    · have hnew := h.update hrow
        (fun r =>
          { r with
            collectionUrl := collection
            calendarId := calendar
            etag := some (item.etag.getD [])
            data := srv.dataOf item.href e })
        (fun _ => rfl) (fun _ => rfl)
        ⟨hcoll.symm.trans (congrArg _ hext.symm), e, by rw [he]; rfl, by rw [hext]⟩
      refine ⟨hnew.1, ?_⟩
      intro href
      rw [hnew.2, hext, he]
      rfl
  | none =>
    have hnew := h.insert
      { id := freshWord '0' (rows.map PimRow.id)
        externalId := item.href
        collectionUrl := collection
        calendarId := calendar
        etag := some (item.etag.getD [])
        data := srv.dataOf item.href e }
      (freshWord_not_mem '0' _)
      (fun r hr hext => List.find?_eq_none.mp hfind r hr (beq_iff_eq.mpr hext))
      ⟨hcoll.symm, e, by rw [he]; rfl, rfl⟩
    refine ⟨hnew.1, ?_⟩
    intro href
    rw [hnew.2, he]
    rfl

/-- The items that the server sends under a log. -/
structure Sent (srv : DavServer) (log : List Change) (collection : Text) (items : List DavItem) :
    Prop where
  genuine : ∀ item ∈ items, Genuine srv collection item
  current : ∀ item ∈ items, item.data.isSome → item.etag = etagAt log item.href

variable (calendar) in
/-- One upsert leaves the row of an item as it was or brings it up to date. -/
theorem upsertItem_spec (h : RowsOk srv rows) {log : List Change} {item : DavItem}
    (hitem : Genuine srv collection item)
    (hcurrent : item.data.isSome → item.etag = etagAt log item.href) :
    RowsOk srv (upsertItem collection calendar rows item) ∧ ∀ href,
      (storedEtag (upsertItem collection calendar rows item) href = storedEtag rows href ∨
        (srv.collectionOf href = collection ∧ (etagAt log href).isSome ∧
          storedEtag (upsertItem collection calendar rows item) href = etagAt log href)) ∧
      (item.data.isSome → item.href = href →
        storedEtag (upsertItem collection calendar rows item) href = etagAt log href) := by
  cases hdata : item.data with
  | none =>
    rw [upsertItem_none item hdata]
    refine ⟨h, ?_⟩
    intro href
    refine ⟨.inl rfl, ?_⟩
    intro hsome
    cases hsome
  | some data =>
    obtain ⟨hok, hetag⟩ := upsertItem_rows calendar h hitem hdata
    have hnow := hcurrent (hdata ▸ rfl)
    obtain ⟨hcoll, e, he, _⟩ := hitem data hdata
    refine ⟨hok, ?_⟩
    intro href
    rw [hetag]
    by_cases hhref : href = item.href
    · rw [if_pos hhref, hhref]
      refine ⟨.inr ⟨hcoll, ?_, hnow⟩, fun _ _ => hnow⟩
      rw [← hnow, he]
      rfl
    · rw [if_neg hhref]
      exact ⟨.inl rfl, fun _ hsame => absurd hsame.symm hhref⟩

variable (calendar) in
theorem upsertItems_spec (works : Nat → Bool) {log : List Change} {items : List DavItem}
    (hsent : Sent srv log collection items) (h : RowsOk srv rows) :
    RowsOk srv (upsertItems works collection calendar rows items) ∧ ∀ href,
      (storedEtag (upsertItems works collection calendar rows items) href = storedEtag rows href ∨
        (srv.collectionOf href = collection ∧ (etagAt log href).isSome ∧
          storedEtag (upsertItems works collection calendar rows items) href = etagAt log href)) ∧
      ((∀ n, works n = true) → (∃ item ∈ items, item.data.isSome ∧ item.href = href) →
        storedEtag (upsertItems works collection calendar rows items) href = etagAt log href) := by
  unfold upsertItems
  generalize 0 = start
  induction items generalizing rows start with
  | nil =>
    refine ⟨h, ?_⟩
    intro href
    refine ⟨.inl rfl, ?_⟩
    rintro _ ⟨item, hitem, _⟩
    cases hitem
  | cons item items ih =>
    rw [List.zipIdx_cons, List.foldl_cons]
    have hrest : Sent srv log collection items :=
      ⟨fun i hi => hsent.genuine i (List.mem_cons_of_mem _ hi),
        fun i hi => hsent.current i (List.mem_cons_of_mem _ hi)⟩
    obtain ⟨hok, hone⟩ := upsertItem_spec calendar h
      (hsent.genuine item List.mem_cons_self) (hsent.current item List.mem_cons_self)
    dsimp only
    split
    · obtain ⟨hok', hall⟩ := ih hrest hok (start + 1)
      refine ⟨hok', ?_⟩
      intro href
      obtain ⟨hkeep, hitems⟩ := hall href
      obtain ⟨hkeep₁, hitem⟩ := hone href
      refine ⟨?_, ?_⟩
      · rcases hkeep with hkeep | hnew
        · rcases hkeep₁ with hkeep₁ | ⟨hcoll, hsome, hnow⟩
          · exact .inl (hkeep.trans hkeep₁)
          · exact .inr ⟨hcoll, hsome, hkeep.trans hnow⟩
        · exact .inr hnew
      · rintro hworks ⟨i, hi, hdata, hhref⟩
        rcases List.mem_cons.mp hi with rfl | hi
        · rcases hkeep with hkeep | ⟨_, _, hnow⟩
          · exact hkeep.trans (hitem hdata hhref)
          · exact hnow
        · exact hitems hworks ⟨i, hi, hdata, hhref⟩
    · rename_i hfails
      obtain ⟨hok', hall⟩ := ih hrest h (start + 1)
      refine ⟨hok', ?_⟩
      intro href
      obtain ⟨hkeep, _⟩ := hall href
      exact ⟨hkeep, fun hworks => absurd (hworks start) hfails⟩

theorem tombstone_spec (h : RowsOk srv rows) (href : Text) :
    RowsOk srv (tombstone rows href) ∧ ∀ other, storedEtag (tombstone rows href) other =
      if other = href then none else storedEtag rows other := by
  have hsub : (tombstone rows href).Sublist rows := List.filter_sublist
  have hok : RowsOk srv (tombstone rows href) :=
    ⟨h.ids.sublist (hsub.map _), h.externalIds.sublist (hsub.map _),
      fun r hr => h.stored r (hsub.subset hr)⟩
  refine ⟨hok, ?_⟩
  intro other
  split
  · rename_i he
    rw [he, storedEtag_none hok]
    intro r hr hext
    have hkept := (List.mem_filter.mp hr).2
    rw [hext, beq_self_eq_true] at hkept
    cases hkept
  · rename_i hne
    unfold storedEtag tombstone
    rw [List.find?_filter]
    congr 2
    funext r
    by_cases hr : r.externalId = other
    · simp [hr, hne]
    · simp [hr]

theorem tombstones_spec (works : Nat → Bool) (h : RowsOk srv rows) (hrefs : List Text) :
    RowsOk srv (tombstones works rows hrefs) ∧ ∀ href,
      (storedEtag (tombstones works rows hrefs) href = storedEtag rows href ∨
        (href ∈ hrefs ∧ storedEtag (tombstones works rows hrefs) href = none)) ∧
      ((∀ n, works n = true) → href ∈ hrefs →
        storedEtag (tombstones works rows hrefs) href = none) := by
  unfold tombstones
  generalize 0 = start
  induction hrefs generalizing rows start with
  | nil =>
    refine ⟨h, ?_⟩
    intro href
    refine ⟨.inl rfl, ?_⟩
    intro _ hmem
    cases hmem
  | cons first hrefs ih =>
    rw [List.zipIdx_cons, List.foldl_cons]
    obtain ⟨hok, hone⟩ := tombstone_spec h first
    dsimp only
    split
    · obtain ⟨hok', hall⟩ := ih hok (start + 1)
      refine ⟨hok', ?_⟩
      intro href
      obtain ⟨hkeep, hrest⟩ := hall href
      rw [hone] at hkeep
      refine ⟨?_, ?_⟩
      · rcases hkeep with hkeep | ⟨hmem, hnone⟩
        · split at hkeep
          · rename_i he
            exact .inr ⟨he ▸ List.mem_cons_self, hkeep⟩
          · exact .inl hkeep
        · exact .inr ⟨List.mem_cons_of_mem _ hmem, hnone⟩
      · intro hworks hmem
        rcases List.mem_cons.mp hmem with rfl | hmem
        · rcases hkeep with hkeep | ⟨_, hnone⟩
          · rw [hkeep, if_pos rfl]
          · exact hnone
        · exact hrest hworks hmem
    · rename_i hfails
      obtain ⟨hok', hall⟩ := ih h (start + 1)
      refine ⟨hok', ?_⟩
      intro href
      obtain ⟨hkeep, _⟩ := hall href
      refine ⟨?_, fun hworks => absurd (hworks start) hfails⟩
      exact hkeep.imp_right fun hgone => ⟨List.mem_cons_of_mem _ hgone.1, hgone.2⟩

theorem fetch_sent (log : List Change) (c : Text) (hrefs : List Text) :
    Sent srv log c (fetch srv log c hrefs) := by
  constructor
  · intro item hitem data hdata
    obtain ⟨chunk, _, hin⟩ := List.mem_flatMap.mp hitem
    obtain ⟨hcoll, e, _, he, hd⟩ := srv.multiget_data log c chunk item hin data hdata
    exact ⟨hcoll, e, he, hd⟩
  · intro item hitem hsome
    obtain ⟨chunk, _, hin⟩ := List.mem_flatMap.mp hitem
    obtain ⟨data, hdata⟩ := Option.isSome_iff_exists.mp hsome
    obtain ⟨_, e, hnow, he, _⟩ := srv.multiget_data log c chunk item hin data hdata
    rw [he, hnow]

theorem fetch_all {log : List Change} {c : Text} {hrefs : List Text} {h : Text} (hmem : h ∈ hrefs)
    (hcoll : srv.collectionOf h = c) (hsome : (etagAt log h).isSome) :
    ∃ item ∈ fetch srv log c hrefs, item.data.isSome ∧ item.href = h := by
  obtain ⟨e, he⟩ := Option.isSome_iff_exists.mp hsome
  rw [← flatten_chunks multigetChunk (by decide) hrefs] at hmem
  obtain ⟨chunk, hchunk, hin⟩ := List.mem_flatten.mp hmem
  exact ⟨_, List.mem_flatMap.mpr ⟨chunk, hchunk, srv.multiget_all log c chunk h hin e hcoll he⟩,
    rfl, rfl⟩

/-! ## A sync of one collection -/

/-- What `delta` finds: a report, or a listing without removals. -/
theorem delta_cases {out : SyncOutcome} {log : List Change} {c : Text} {prior : Option Text}
    {toFetch removed : List Text} {next : Option Text}
    (h : delta srv out log c prior = some (toFetch, removed, next)) :
    (out.answered = true ∧ toFetch = (srv.report log c (askedToken srv prior)).changed ∧
      removed = (srv.report log c (askedToken srv prior)).removed ∧
      next = (srv.report log c (askedToken srv prior)).token) ∨
    (out.answered = false ∧ toFetch = srv.listing log c ∧ removed = [] ∧ next = none) := by
  unfold delta at h
  cases hans : out.answered with
  | true =>
    rw [hans] at h
    have hvalid := srv.report_valid log c (askedToken srv prior)
    simp only [↓reduceIte, Option.filter_some, hvalid, Bool.not_false, Option.some.injEq,
      Prod.mk.injEq] at h
    obtain ⟨hfetch, hremoved, hnext⟩ := h
    exact .inl ⟨rfl, hfetch.symm, hremoved.symm, hnext.symm⟩
  | false =>
    rw [hans] at h
    simp only [Bool.false_eq_true, ↓reduceIte, Option.filter_none] at h
    split at h
    · simp only [Option.some.injEq, Prod.mk.injEq] at h
      obtain ⟨hfetch, hremoved, hnext⟩ := h
      exact .inr ⟨rfl, hfetch.symm, hremoved.symm, hnext.symm⟩
    · cases h

/-- What a sync of a collection does to the rows, item by item. -/
structure SyncedRows (srv : DavServer) (out : SyncOutcome) (log : List Change) (c : Text)
    (prior : Option Text) (rows rows' : List PimRow) (next : Option Text) : Prop where
  ok : RowsOk srv rows'
  fetched : out.fetched = true
  /-- Untouched, brought up to date, or removed. -/
  cases : ∀ href, storedEtag rows' href = storedEtag rows href ∨
    (srv.collectionOf href = c ∧ (etagAt (log ++ out.meanwhile) href).isSome ∧
      storedEtag rows' href = etagAt (log ++ out.meanwhile) href) ∨
    (srv.collectionOf href = c ∧ etagAt log href = none ∧ storedEtag rows' href = none ∧
      out.answered = true ∧ href ∈ (srv.report log c (askedToken srv prior)).removed)
  next_eq : next = none ∨
    (out.answered = true ∧ next = (srv.report log c (askedToken srv prior)).token)
  /-- Where every write succeeds, what the report names is done. -/
  changed : out.answered = true → (∀ n, out.stored n = true ∧ out.removed n = true) → ∀ href,
    ¬ Touched out.meanwhile href → srv.collectionOf href = c →
    href ∈ (srv.report log c (askedToken srv prior)).changed → (etagAt log href).isSome →
    storedEtag rows' href = etagAt log href
  gone : out.answered = true → (∀ n, out.stored n = true ∧ out.removed n = true) → ∀ href,
    href ∈ (srv.report log c (askedToken srv prior)).removed → storedEtag rows' href = none

theorem syncRows_spec {out : SyncOutcome} {log : List Change} {c : Text} {prior next : Option Text}
    {rows' : List PimRow} (h : RowsOk srv rows)
    (heq : syncRows srv out log c calendar prior rows = some (rows', next)) :
    SyncedRows srv out log c prior rows rows' next := by
  unfold syncRows at heq
  cases hdelta : delta srv out log c prior with
  | none =>
    rw [hdelta] at heq
    cases heq
  | some found =>
    obtain ⟨toFetch, removed, next'⟩ := found
    rw [hdelta] at heq
    dsimp only at heq
    split at heq
    · rename_i hfetched
      obtain ⟨hrows, hnext⟩ := Prod.mk.inj (Option.some.inj heq)
      obtain ⟨hok, hup⟩ := upsertItems_spec calendar out.stored
        (fetch_sent (log ++ out.meanwhile) c toFetch) h
      obtain ⟨hok', hgone⟩ := tombstones_spec out.removed hok removed
      rw [hrows] at hok' hgone
      have hremoved : ∀ href ∈ removed, srv.collectionOf href = c ∧ etagAt log href = none ∧
          out.answered = true ∧ href ∈ (srv.report log c (askedToken srv prior)).removed := by
        intro href hmem
        rcases delta_cases hdelta with ⟨hans, _, hrem, _⟩ | ⟨_, _, hrem, _⟩
        · rw [hrem] at hmem
          obtain ⟨hcoll, hnone⟩ := srv.report_removed _ _ _ _ hmem
          exact ⟨hcoll, hnone, hans, hmem⟩
        · rw [hrem] at hmem
          cases hmem
      refine ⟨hok', hfetched, ?_, ?_, ?_, ?_⟩
      · intro href
        rcases (hgone href).1 with hsame | ⟨hmem, hnone⟩
        · rcases (hup href).1 with hup | ⟨hcoll, hsome, hnow⟩
          · exact .inl (hsame.trans hup)
          · exact .inr (.inl ⟨hcoll, hsome, hsame.trans hnow⟩)
        · obtain ⟨hcoll, hgone, hans, hin⟩ := hremoved href hmem
          exact .inr (.inr ⟨hcoll, hgone, hnone, hans, hin⟩)
      · rcases delta_cases hdelta with ⟨hans, _, _, htoken⟩ | ⟨_, _, _, htoken⟩
        · exact .inr ⟨hans, hnext.symm.trans htoken⟩
        · exact .inl (hnext.symm.trans htoken)
      · intro hans hworks href huntouched hcoll hmem hsome
        have hnow := etagAt_untouched log huntouched
        rcases delta_cases hdelta with ⟨_, hfetch, _, _⟩ | ⟨hno, _⟩
        · rcases (hgone href).1 with hsame | ⟨hin, hnone⟩
          · rw [hsame, ← hnow]
            apply (hup href).2 (fun n => (hworks n).1)
            rw [hfetch]
            exact fetch_all hmem hcoll (hnow.symm ▸ hsome)
          · rw [hnone, (hremoved href hin).2.1]
        · rw [hans] at hno
          cases hno
      · intro hans hworks href hmem
        rcases delta_cases hdelta with ⟨_, _, hrem, _⟩ | ⟨hno, _⟩
        · exact (hgone href).2 (fun n => (hworks n).2) (hrem ▸ hmem)
        · rw [hans] at hno
          cases hno
    · cases heq

section Steps

variable {out : SyncOutcome} {log : List Change} {c : Text} {prior next : Option Text}
  {rows' : List PimRow}

/-- An item that has not changed since its row was right keeps the right row. -/
theorem SyncedRows.keeps (h : SyncedRows srv out log c prior rows rows' next) {href : Text}
    (huntouched : ¬ Touched out.meanwhile href) (hright : storedEtag rows href = etagAt log href) :
    storedEtag rows' href = etagAt log href := by
  rcases h.cases href with hsame | ⟨_, _, hnow⟩ | ⟨_, hgone, hnone, _⟩
  · exact hsame.trans hright
  · exact hnow.trans (etagAt_untouched log huntouched)
  · exact hnone.trans hgone.symm

theorem readToken_cases (prior : Option Text) :
    askedToken srv prior = none ∨ askedToken srv prior = prior := by
  have hmem := srv.readToken_mem (tokenElements prior) (List.cons_ne_nil _ _)
  unfold askedToken
  rcases List.mem_cons.mp hmem with he | he
  · exact .inl he
  · cases prior with
    | none => cases he
    | some t => exact .inr (List.mem_singleton.mp he)

/-- The rows of the items that have not changed since the token was given are right. -/
def TokenCovers (srv : DavServer) (c : Text) (rows : List PimRow) (log : List Change) (token : Text) :
    Prop :=
  ∃ old more asked, log = old ++ more ∧ (srv.report old c asked).token = some token ∧
    ∀ h, srv.collectionOf h = c → Touched more h ∨ storedEtag rows h = etagAt old h

theorem TokenCovers.grow {token : Text} (h : TokenCovers srv c rows log token)
    (more : List Change) : TokenCovers srv c rows (log ++ more) token := by
  obtain ⟨old, since, asked, rfl, htoken, hcover⟩ := h
  refine ⟨old, since ++ more, asked, List.append_assoc _ _ _, htoken, ?_⟩
  intro h hcoll
  exact (hcover h hcoll).imp_left Touched.append_left

/-- A sync keeps what an older token covers. -/
theorem TokenCovers.keeps {token : Text} (h : TokenCovers srv c rows log token)
    (hsync : SyncedRows srv out log c prior rows rows' next) :
    TokenCovers srv c rows' (log ++ out.meanwhile) token := by
  obtain ⟨old, more, asked, rfl, htoken, hcover⟩ := h
  refine ⟨old, more ++ out.meanwhile, asked, List.append_assoc _ _ _, htoken, ?_⟩
  intro href hcoll
  by_cases hmore : Touched more href
  · exact .inl hmore.append_left
  · by_cases hmean : Touched out.meanwhile href
    · exact .inl hmean.append_right
    · have hold : etagAt (old ++ more) href = etagAt old href := etagAt_untouched old hmore
      refine .inr ?_
      rw [← hold]
      exact hsync.keeps hmean (((hcover href hcoll).resolve_left hmore).trans hold.symm)

theorem NoneDeleted.stored (h : NoneDeleted c rows log) (hok : RowsOk srv rows) {href : Text}
    (hcoll : srv.collectionOf href = c) (hnone : etagAt log href = none) :
    storedEtag rows href = none := by
  rw [storedEtag_none hok]
  rintro r hr rfl
  have hsome := h r hr ((hok.stored r hr).1.trans hcoll)
  rw [hnone] at hsome
  cases hsome

/-- A sync whose writes succeed brings every item up to the report, if it started from a
token that covered the rows, or no row was of a deleted item. -/
theorem SyncedRows.upToDate (hsync : SyncedRows srv out log c prior rows rows' next)
    (hok : RowsOk srv rows) (hans : out.answered = true)
    (hworks : ∀ n, out.stored n = true ∧ out.removed n = true)
    (hprior : ∀ t, prior = some t → TokenCovers srv c rows log t)
    (hnone : askedToken srv prior = none → NoneDeleted c rows log) {href : Text}
    (hcoll : srv.collectionOf href = c) (huntouched : ¬ Touched out.meanwhile href) :
    storedEtag rows' href = etagAt log href := by
  cases hasked : askedToken srv prior with
  | none =>
    cases hnow : etagAt log href with
    | none =>
      -- its row was not there, and nothing is removed
      rw [← hnow]
      apply hsync.keeps huntouched
      rw [hnow]
      exact (hnone hasked).stored hok hcoll hnow
    | some e =>
      have hsome : (etagAt log href).isSome := by
        rw [hnow]
        rfl
      rw [← hnow]
      apply hsync.changed hans hworks href huntouched hcoll _ hsome
      rw [hasked]
      exact (srv.report_all log c href).mpr ⟨hcoll, hsome⟩
  | some t =>
    have hp : prior = some t := by
      rcases readToken_cases prior with hn | he
      · rw [hasked] at hn
        cases hn
      · exact he.symm.trans hasked
    obtain ⟨old, more, asked, rfl, htoken, hcover⟩ := hprior t hp
    by_cases hmore : Touched more href
    · cases hnow : etagAt (old ++ more) href with
      | none =>
        apply hsync.gone hans hworks
        rw [hasked]
        exact srv.report_gone old c asked t htoken more href hcoll hmore hnow
      | some e =>
        have hsome : (etagAt (old ++ more) href).isSome := by
          rw [hnow]
          rfl
        rw [← hnow]
        apply hsync.changed hans hworks href huntouched hcoll _ hsome
        rw [hasked]
        exact srv.report_changed old c asked t htoken more href hcoll hmore hsome
    · have hold : etagAt (old ++ more) href = etagAt old href := etagAt_untouched old hmore
      exact hsync.keeps huntouched (((hcover href hcoll).resolve_left hmore).trans hold.symm)

end Steps

end Lyra.Dav
