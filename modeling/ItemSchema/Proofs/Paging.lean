import ItemSchema.Proofs.Exchange

/-! Pages of searches. The store knows only how many items it has to look at, those in front of the
page included, and the size of the page is found again from that number when the answer is read; it
is the one that was asked for, as no request is made where the sum would not be exact. -/
namespace ItemSchema

namespace Page

/-- The items of the page. -/
def window (page : Page) (items : List α) : List α :=
  match page.limit with
  | none => items.drop page.offset
  | some limit => (items.drop page.offset).take limit

/-- Whether there is a number of items for the store to look at. -/
def Fits (page : Page) : Prop :=
  ∀ limit ∈ page.limit, 0 < limit ∧ page.offset + limit < Nat.pow 2 64

instance (page : Page) : Decidable page.Fits :=
  inferInstanceAs (Decidable (∀ limit ∈ page.limit, 0 < limit ∧ page.offset + limit < Nat.pow 2 64))

variable {page : Page}

theorem fits_iff : page.Fits ↔ page.faults = [] := by
  rw [Fits, faults]
  cases page.limit with
  | none => simp
  | some limit =>
    by_cases zero : limit = 0
    · simp [zero]
    · by_cases within : limit + page.offset < Nat.pow 2 64
      · simp [zero, within, Nat.pos_iff_ne_zero, Nat.add_comm page.offset]
      · simp [zero, within, Nat.add_comm page.offset]

theorem head?_faults : page.faults.head? = some fault ↔
    page.limit = some 0 ∧ fault = .zeroLimit ∨
      ∃ limit, page.limit = some limit ∧ 0 < limit ∧ Nat.pow 2 64 ≤ page.offset + limit ∧
        fault = .windowTooLarge limit page.offset := by
  rw [faults]
  cases page.limit with
  | none => simp
  | some limit =>
    generalize Nat.pow 2 64 = bound
    by_cases zero : limit = 0
    · simp [zero, eq_comm]
    · have positive : 0 < limit := Nat.pos_of_ne_zero zero
      by_cases within : limit + page.offset < bound
      · have short : ¬bound ≤ page.offset + limit := by omega
        simp [zero, within, short]
      · have long : bound ≤ page.offset + limit := by omega
        simp [zero, within, positive, long, eq_comm]

theorem storeLimit_ok_iff {count : Option Nat} : page.storeLimit = .ok count ↔
    page.Fits ∧ count = page.limit.map (page.offset + ·) := by
  rw [Fits, storeLimit]
  cases page.limit with
  | none => simp [eq_comm]
  | some limit =>
    by_cases zero : limit = 0
    · simp [zero]
    · by_cases within : limit + page.offset < Nat.pow 2 64
      · simp [zero, within, Nat.pos_iff_ne_zero, Nat.add_comm page.offset, @eq_comm _ _ count]
      · simp [zero, within, Nat.add_comm page.offset]

theorem getElem?_window (items : List α) (i : Nat) :
    (page.window items)[i]? =
      if ∀ limit ∈ page.limit, i < limit then items[page.offset + i]? else none := by
  rw [window]
  cases page.limit with
  | none => simp
  | some limit => simp [List.getElem?_take]

/-- Items that are not on the page have no effect on it. -/
theorem window_congr {items others : List α}
    (same : ∀ i, page.offset ≤ i → (∀ limit ∈ page.limit, i < page.offset + limit) →
      items[i]? = others[i]?) : page.window items = page.window others := by
  apply List.ext_getElem?
  intro i
  rw [getElem?_window, getElem?_window]
  split
  · rename_i inside
    exact same _ (Nat.le_add_right _ _) fun limit limited =>
      Nat.add_lt_add_left (inside limit limited) _
  · rfl

/-- The store need not look further than at the items that it was asked for. -/
theorem window_take (items : List α) :
    page.window ((page.limit.map (page.offset + ·)).elim items items.take) = page.window items := by
  cases limited : page.limit with
  | none => rfl
  | some limit => simp [window, limited, List.drop_take, List.take_take]

/-- Pages of one size, each behind the one before it, are the items in front of their end. -/
theorem flatMap_window (limit : Nat) (items : List α) (n : Nat) :
    (List.range n).flatMap (fun k => window ⟨k * limit, some limit⟩ items) =
      items.take (n * limit) := by
  induction n with
  | zero => simp
  | succ n ih =>
    rw [List.range_succ, List.flatMap_append, ih, Nat.succ_mul, List.take_add]
    simp [window]

end Page

/-- A request for a search, of either kind. -/
def Request.search? : Request → Option ScanRequest
  | .query r => some r.toScanRequest
  | .scan r => some r
  | _ => none

/-- The page that the calls for a search ask for. -/
def RequestCalls.page? : RequestCalls → Option Page
  | .query calls =>
    some (Page.asked fun o => (lastCall QueryCall.option calls o).bind QueryCall.search?)
  | .scan calls => some (Page.asked (lastCall SearchCall.option calls))
  | _ => none

/-- The calls of a search that is all right but for the page that it asks for. -/
structure RequestCalls.Asks (table : Table) (calls : RequestCalls) (page : Page) : Prop where
  asked : calls.page? = some page
  faultless : calls.faults table = []
  keyed : ∀ row, calls = .query row → (lastCall QueryCall.option row .keyCondition).isSome = true

/-- The request tells the store how far to look, and the page how much to pass over. -/
structure ScanRequest.Covers (r : ScanRequest) (page : Page) : Prop where
  offset : r.offset = page.offset
  limit : r.limit = page.limit.map (page.offset + ·)

theorem ScanRequest.Covers.window_eq {r : ScanRequest} (covers : r.Covers page) (items : List α) :
    r.window items = page.window items := by
  rw [window, covers.offset, covers.limit, Page.window]
  cases page.limit with
  | none => rfl
  | some limit => simp

theorem RequestCalls.Asks.lacking {calls : RequestCalls} (asks : calls.Asks table page) :
    calls.lacking = page.faults := by
  obtain ⟨asked, _, keyed⟩ := asks
  cases calls with
  | query row =>
    cases asked
    obtain ⟨call, given⟩ := Option.isSome_iff_exists.mp (keyed row rfl)
    simp only [RequestCalls.lacking, given, lack, List.nil_append]
  | scan row =>
    cases asked
    rfl
  | _ => contradiction

section

variable {table : Table}

theorem Search.request_covers {search : Search} (made : search.request table t = .ok r) :
    search.page.Fits ∧ r.Covers search.page := by
  rw [request] at made
  simp only [bind_eq_ok, except_pure, Except.ok.injEq] at made
  obtain ⟨filter, _, count, counted, rfl⟩ := made
  obtain ⟨fits, same⟩ := Page.storeLimit_ok_iff.mp counted
  exact ⟨fits, rfl, same⟩

theorem Query.request_covers {query : Query} (made : query.request table = .ok r) :
    query.search.page.Fits ∧ r.toScanRequest.Covers query.search.page := by
  rw [request] at made
  cases given : query.keyCondition with
  | none => simp [given] at made
  | some c =>
    simp only [given, bind_eq_ok, except_pure, Except.ok.injEq] at made
    obtain ⟨keyCondition, _, search, made, rfl⟩ := made
    exact Search.request_covers made

/-- A search that was put together covers a page that fits. -/
theorem Table.request_covers {calls : RequestCalls} (asked : calls.page? = some page)
    (built : table.request calls = .ok r) :
    page.Fits ∧ ∃ s, r.search? = some s ∧ s.Covers page := by
  rw [request_eq] at built
  obtain ⟨_, _, built⟩ := bind_eq_ok.mp built
  cases calls with
  | query row =>
    cases asked
    obtain ⟨s, made, rfl⟩ := map_eq_ok.mp built
    obtain ⟨fits, covers⟩ := Query.request_covers made
    rw [Query.final_page] at fits covers
    exact ⟨fits, s.toScanRequest, rfl, covers⟩
  | scan row =>
    cases asked
    obtain ⟨s, made, rfl⟩ := map_eq_ok.mp built
    rw [Page.asked_eq table .full]
    obtain ⟨fits, covers⟩ := Search.request_covers made
    exact ⟨fits, s, rfl, covers⟩
  | _ => contradiction

theorem RequestCalls.Asks.settled {calls : RequestCalls} (asks : calls.Asks table page) :
    SettledBy (table.request calls) page.faults := by
  have settled := RequestCalls.requestOfLast_settled asks.faultless
  rw [asks.lacking] at settled
  rw [Table.request_eq, firstFault_nil asks.faultless]
  exact settled

theorem RequestCalls.Asks.request_error_iff {calls : RequestCalls} (asks : calls.Asks table page) :
    table.request calls = .error e ↔
      page.limit = some 0 ∧ e = .invalidOperand .request .zeroLimit ∨
        ∃ limit, page.limit = some limit ∧ 0 < limit ∧ Nat.pow 2 64 ≤ page.offset + limit ∧
          e = .invalidOperand .request (.windowTooLarge limit page.offset) := by
  rw [asks.settled.error_iff]
  simp only [Page.head?_faults]
  constructor
  · rintro ⟨_, ⟨none, rfl⟩ | ⟨limit, limited, positive, beyond, rfl⟩, rfl⟩
    · exact .inl ⟨none, rfl⟩
    · exact .inr ⟨limit, limited, positive, beyond, rfl⟩
  · rintro (⟨none, rfl⟩ | ⟨limit, limited, positive, beyond, rfl⟩)
    · exact ⟨_, .inl ⟨none, rfl⟩, rfl⟩
    · exact ⟨_, .inr ⟨limit, limited, positive, beyond, rfl⟩, rfl⟩

end

/-- What becomes of stored items: all of them in their order, or the error of the first one that
cannot be decoded. -/
inductive Table.Reads (table : Table) : List Item → Except Error (List Value) → Prop where
  | all (each : List.Forall₂ (fun item v => table.decodeItem item = .ok v) items vs) :
    Reads table items (.ok vs)
  | first (before : ∀ item ∈ front, ∃ v, table.decodeItem item = .ok v)
    (fails : table.decodeItem item = .error e) : Reads table (front ++ item :: back) (.error e)

/-- What a search makes of the answer to its request. -/
def Table.answerPage (table : Table) (page : Page) :
    Except StoreError Response → Except Error Answer
  | .error e => .error (.store e)
  | .ok response => .items <$> (page.window response.items).mapM table.decodeItem

/-- Answers every search with the items of a fixed row from its start on, as many as it asks for. -/
def Client.Serves [Monad m] (client : Client m) (items : List Item) : Prop :=
  ∀ r s, r.search? = some s → ∃ response, client r = pure (.ok response) ∧
    response.items = s.limit.elim items items.take

section

variable {table : Table} {m : Type → Type} [Monad m] [LawfulMonad m] {client : Client m}

theorem Table.reads_iff : table.Reads items result ↔ items.mapM table.decodeItem = result := by
  constructor
  · intro reads
    cases reads with
    | all each => exact mapM_eq_ok_iff_forall₂.mpr each
    | first before fails => exact mapM_eq_error_iff.mpr ⟨_, _, _, rfl, before, fails⟩
  · intro made
    cases result with
    | ok vs => exact .all (mapM_eq_ok_iff_forall₂.mp made)
    | error e =>
      obtain ⟨front, item, back, rfl, before, fails⟩ := mapM_eq_error_iff.mp made
      exact .first before fails

theorem Table.send_page {calls : RequestCalls} (asked : calls.page? = some page)
    (built : table.request calls = .ok r) (client : Client m) :
    table.send client calls = table.answerPage page <$> client r := by
  obtain ⟨_, s, search, covers⟩ := request_covers asked built
  have reads : ∀ response, table.read r response =
      .items <$> (page.window response.items).mapM table.decodeItem := by
    intro response
    rw [← covers.window_eq]
    cases r with
    | query r | scan r =>
      cases search
      rfl
    | _ => contradiction
  rw [send_eq, built, ← bind_pure_comp]
  apply bind_congr
  intro answer
  cases answer with
  | error e => rfl
  | ok response => exact congrArg pure (reads response)

theorem Table.send_served {calls : RequestCalls} (asked : calls.page? = some page)
    (built : table.request calls = .ok r) (serves : client.Serves items) :
    table.send client calls = pure (.items <$> (page.window items).mapM table.decodeItem) := by
  obtain ⟨_, s, search, covers⟩ := request_covers asked built
  obtain ⟨response, answers, given⟩ := serves r s search
  rw [send_page asked built, answers, map_pure, answerPage, given, covers.limit, Page.window_take]

/-- Pages of one size that follow each other have, one after the other, what a search for all of
them has; behind the last item there is nothing more. -/
theorem Table.send_pages {calls : Nat → RequestCalls}
    (asks : ∀ k < n, (calls k).Asks table ⟨k * limit, some limit⟩) (positive : 0 < limit)
    (within : n * limit < Nat.pow 2 64) (serves : client.Serves items) :
    ∃ results : Nat → Except Error (List Value),
      (∀ k < n, table.send client (calls k) = pure (.items <$> results k)) ∧
        List.flatten <$> (List.range n).mapM results =
          (items.take (n * limit)).mapM table.decodeItem := by
  refine ⟨fun k => (Page.window ⟨k * limit, some limit⟩ items).mapM table.decodeItem, ?_, ?_⟩
  · intro k below
    have fits : Page.Fits ⟨k * limit, some limit⟩ := by
      intro count same
      cases same
      refine ⟨positive, Nat.lt_of_le_of_lt ?_ within⟩
      calc k * limit + limit = (k + 1) * limit := (Nat.succ_mul k limit).symm
        _ ≤ n * limit := Nat.mul_le_mul_right limit below
    obtain ⟨r, built⟩ := (asks k below).settled.ok_iff.mpr (Page.fits_iff.mp fits)
    exact send_served (asks k below).asked built serves
  · rw [flatten_mapM, Page.flatMap_window]

end

/-- A search is refused for its page if no item is wanted or if the items up to the end of the page
cannot be counted, and otherwise the store is told to look at as many. Of what the store answers the
items of the page are decoded in their order, or the first error among them is the result, whatever
the other items are. From a store that has a fixed row of items, pages of one size come without a
gap and without an overlap. -/
theorem Table.paging (table : Table) :
    (∀ (calls : RequestCalls) page, calls.Asks table page →
      (∀ e, table.request calls = .error e ↔
        page.limit = some 0 ∧ e = .invalidOperand .request .zeroLimit ∨
          ∃ limit, page.limit = some limit ∧ 0 < limit ∧ Nat.pow 2 64 ≤ page.offset + limit ∧
            e = .invalidOperand .request (.windowTooLarge limit page.offset)) ∧
      ((∃ r, table.request calls = .ok r) ↔ page.Fits)) ∧
    (∀ (calls : RequestCalls) page r, calls.page? = some page → table.request calls = .ok r →
      (∃ s, r.search? = some s ∧ s.offset = page.offset ∧
        s.limit = page.limit.map (page.offset + ·)) ∧
      ∀ (m : Type → Type) [Monad m] [LawfulMonad m] (client : Client m),
        table.send client calls = table.answerPage page <$> client r ∧
        ∀ items, client.Serves items → ∃ result, table.Reads (page.window items) result ∧
          table.send client calls = pure (.items <$> result)) ∧
    (∀ (page : Page) (response : Response),
      (∃ result, table.Reads (page.window response.items) result ∧
        table.answerPage page (.ok response) = .items <$> result) ∧
      ∀ other : Response,
        (∀ i, page.offset ≤ i → (∀ limit ∈ page.limit, i < page.offset + limit) →
          response.items[i]? = other.items[i]?) →
        table.answerPage page (.ok response) = table.answerPage page (.ok other)) ∧
    ∀ (m : Type → Type) [Monad m] [LawfulMonad m] (client : Client m) items, client.Serves items →
      ∀ (size n : Nat) (calls : Nat → RequestCalls),
        (∀ k < n, (calls k).Asks table ⟨k * size, some size⟩) → 0 < size →
        n * size < Nat.pow 2 64 → ∃ results : Nat → Except Error (List Value),
          (∀ k < n, table.send client (calls k) = pure (.items <$> results k)) ∧
          table.Reads (items.take (n * size)) (List.flatten <$> (List.range n).mapM results) ∧
          (items.length ≤ n * size →
            table.Reads items (List.flatten <$> (List.range n).mapM results)) := by
  refine ⟨?_, ?_, ?_, ?_⟩
  · intro calls page asks
    exact ⟨fun e => asks.request_error_iff, asks.settled.ok_iff.trans Page.fits_iff.symm⟩
  · intro calls page r asked built
    obtain ⟨_, s, search, covers⟩ := request_covers asked built
    refine ⟨⟨s, search, covers.offset, covers.limit⟩, ?_⟩
    intro m _ _ client
    refine ⟨send_page asked built client, ?_⟩
    intro items serves
    exact ⟨_, reads_iff.mpr rfl, send_served asked built serves⟩
  · intro page response
    refine ⟨⟨_, reads_iff.mpr rfl, rfl⟩, ?_⟩
    intro other same
    rw [answerPage, answerPage, Page.window_congr same]
  · intro m _ _ client items serves size n calls asks positive within
    obtain ⟨results, sends, together⟩ := send_pages asks positive within serves
    refine ⟨results, sends, reads_iff.mpr together.symm, ?_⟩
    intro short
    rw [List.take_of_length_le short] at together
    exact reads_iff.mpr together.symm

namespace Kiosk

def shelf : List Item :=
  [[("id", .s "a")], [("id", .s "b")], [("id", .s "c")]]

/-- Knows nothing but the shelf. -/
def stocked : Client Id := fun r =>
  match r.search? with
  | some s => .ok ⟨s.limit.elim shelf shelf.take, none, none, none⟩
  | none => .error (.transport "down")

/-- Two items at a time. -/
def turn (k : Nat) : RequestCalls :=
  .scan [.limit 2, .offset (k * 2)]

theorem shelf_paged :
    table.request (.scan [.limit 0]) = .error (.invalidOperand .request .zeroLimit) ∧
      table.send stocked (turn 1) = pure (.ok (.items [.map [("id", .string "c")]])) ∧
      ∃ results, (∀ k < 2, table.send stocked (turn k) = pure (.items <$> results k)) ∧
        table.Reads shelf (List.flatten <$> (List.range 2).mapM results) := by
  obtain ⟨outcome, sends, _, pages⟩ := table.paging
  have serves : stocked.Serves shelf := by
    intro r s search
    rw [stocked, search]
    exact ⟨_, rfl, rfl⟩
  have asks : ∀ k, (turn k).Asks table ⟨k * 2, some 2⟩ := fun k =>
    ⟨rfl, rfl, by intro row same; contradiction⟩
  have none : (RequestCalls.scan [.limit 0]).Asks table ⟨0, some 0⟩ :=
    ⟨rfl, rfl, by intro row same; contradiction⟩
  obtain ⟨r, built⟩ := (outcome _ _ (asks 1)).2.mpr (by decide)
  obtain ⟨result, reads, sent⟩ := ((sends _ _ r rfl built).2 Id stocked).2 shelf serves
  obtain ⟨results, turns, _, whole⟩ :=
    pages Id stocked shelf serves 2 2 turn (fun k _ => asks k) (by decide) (by decide)
  refine ⟨((outcome _ _ none).1 _).mpr (.inl ⟨rfl, rfl⟩), ?_, results, turns, whole (by decide)⟩
  rw [sent, ← Table.reads_iff.mp reads]
  rfl

end Kiosk

end ItemSchema
