import TileRace.Proofs.Game.Accepted
import TileRace.Proofs.Table

namespace TileRace

def messagesTo (p : String) (out : List Message) : List Message := out.filter (·.player = some p)

variable {p : String} {o : Message} {out out' : List Message}

theorem mem_messagesTo : o ∈ messagesTo p out ↔ o ∈ out ∧ o.player = some p := by
  rw [messagesTo, List.mem_filter, decide_eq_true_iff]

theorem messagesTo_append : messagesTo p (out ++ out') = messagesTo p out ++ messagesTo p out' :=
  List.filter_append ..

theorem messagesTo_cons_self (h : o.player = some p) :
    messagesTo p (o :: out) = o :: messagesTo p out :=
  List.filter_cons_of_pos (decide_eq_true h)

theorem messagesTo_cons_of_ne (h : o.player ≠ some p) :
    messagesTo p (o :: out) = messagesTo p out :=
  List.filter_cons_of_neg (by simpa using h)

theorem messagesTo_map {names : List String} (hn : names.Nodup) {f : String → Message}
    (hf : ∀ x, (f x).player = some x) :
    messagesTo p (names.map f) = if p ∈ names then [f p] else [] := by
  induction names with
  | nil => rfl
  | cons x names ih =>
    obtain ⟨hx, hn⟩ := List.nodup_cons.1 hn
    rw [List.map_cons]
    by_cases hp : x = p
    · subst hp
      rw [messagesTo_cons_self (hf x), ih hn, if_neg hx, if_pos List.mem_cons_self]
    · rw [messagesTo_cons_of_ne (by simpa [hf] using hp), ih hn]
      simp [Ne.symm hp]

theorem Refusal.kind_cases (r : Refusal) :
    r.kind = .socketWarning ∨ r.kind = .socketError ∨ r.kind = .leaveGame := by
  cases r with
  | alreadyStarted | full | fewTiles => exact .inr (.inr rfl)
  | noSender | noStatus | noTile | noPlacements | unexpected | board => exact .inr (.inl rfl)
  | _ => exact .inl rfl

namespace Game

variable {g : Game} {k : Kind} {name : String} {socket : Option SocketId}

@[simp] theorem kind_toPlayer : (g.toPlayer k name socket).kind = k := rfl
@[simp] theorem kind_infoChanged : g.infoChanged.kind = .gameInfoChanged := rfl
@[simp] theorem player_infoChanged : g.infoChanged.player = none := rfl
@[simp] theorem kind_withInfo (o : Message) (text : String) : (o.withInfo text).kind = o.kind := rfl

theorem mem_toAll {f : String → Message → Message} :
    o ∈ g.toAll k f ↔ ∃ x ∈ g.players, f x (g.toPlayer k x none) = o := List.mem_map

theorem messagesTo_toAll {f : String → Message → Message}
    (hf : ∀ x n, (f x n).player = n.player) :
    messagesTo p (g.toAll k f) = if p ∈ g.players then [f p (g.toPlayer k p none)] else [] :=
  messagesTo_map g.seats.keys_nodup fun x => hf x _

theorem not_mem_others : name ∉ g.others name := by
  simp [others]

theorem messagesTo_others {f : String → Message} (hf : ∀ x, (f x).player = some x) :
    messagesTo p ((g.others name).map f) = if p ∈ g.others name then [f p] else [] :=
  messagesTo_map (g.seats.keys_nodup.filter _) hf

theorem messagesTo_joined (g : Game) (name : String) (b : Board) (socket : Option SocketId) :
    messagesTo name (g.joined name b socket).out =
      [(g.joined name b socket).game.boardMessage .joinGame name b socket] := by
  rw [joined, messagesTo_append, messagesTo_cons_self rfl, messagesTo_others fun _ => rfl,
    if_neg not_mem_others, messagesTo_cons_of_ne (by simp)]
  rfl

theorem messagesTo_snagged (g : Game) (name : String) (dealt : List (String × Tile))
    (hp : p ∈ g.players) : ∃ o, messagesTo p (g.snagged name dealt).out = [o] ∧
      o.kind = .snagGameTile ∧ o.tiles = (dealt.lookup p).map ([·]) ∧
      o.tilesLeft = some g.poolSize := by
  rw [snagged, messagesTo_toAll, if_pos hp]
  · exact ⟨_, rfl, rfl, rfl, rfl⟩
  · exact fun _ _ => rfl

theorem messagesTo_snagged_of_not_mem (g : Game) (name : String) (dealt : List (String × Tile))
    (hp : p ∉ g.players) : messagesTo p (g.snagged name dealt).out = [] := by
  rw [snagged, messagesTo_toAll, if_neg hp]
  exact fun _ _ => rfl

theorem messagesTo_swapped (g : Game) (name : String) (tile : Tile) (drawn : List Tile)
    (socket : Option SocketId) : ∃ o, messagesTo name (g.swapped name tile drawn socket).out = [o] ∧
      o.kind = .swapGameTile ∧ o.tiles = some drawn := by
  rw [swapped, messagesTo_cons_self rfl, messagesTo_others fun _ => rfl, if_neg not_mem_others]
  exact ⟨_, rfl, rfl, rfl⟩

theorem kind_toAll {f : String → Message → Message} (ho : o ∈ g.toAll k f)
    (hf : ∀ x n, (f x n).kind = n.kind) : o.kind = k := by
  obtain ⟨x, -, rfl⟩ := mem_toAll.1 ho
  exact hf x _

variable {m : Message} {t : Turn}

theorem Accepted.asked (h : g.Accepted m t) :
    m.kind ∈ [.joinGame, .deleteGame, .changeGameStatus, .snagGameTile, .swapGameTile,
      .moveGameTiles, .gameChat, .refreshGameBoard] := by
  cases h with
  | joined kind => simp [kind]
  | returned asks | deleted asks | started asks | won asks | snagged asks | swapped asks
  | moved asks | chatted asks | refreshed asks | resized asks => simp [asks.kind]

theorem Accepted.kind_eq (h : g.Accepted m t) (ho : o ∈ t.out) :
    o.kind = m.kind ∨ o.kind ∈ [.leaveGame, .socketInfo, .gameInfoChanged] := by
  cases h with
  | returned asks | refreshed asks =>
    rw [List.mem_singleton.1 ho]
    exact .inl asks.kind.symm
  | joined kind =>
    obtain ho | ho := List.mem_append.1 ho
    · obtain rfl | ho := List.mem_cons.1 ho
      · exact .inl kind.symm
      · obtain ⟨x, -, rfl⟩ := List.mem_map.1 ho
        simp
    · rw [List.mem_singleton.1 ho]
      simp
  | deleted =>
    simp only [leaveAll] at ho
    rw [kind_toAll ho fun _ _ => rfl]
    simp
  | started asks | won asks =>
    obtain ho | ho := List.mem_append.1 ho
    · rw [kind_toAll ho fun _ _ => rfl]
      exact .inl asks.kind.symm
    · rw [List.mem_singleton.1 ho]
      simp
  | snagged asks | chatted asks =>
    simp only [Game.snagged] at ho
    rw [kind_toAll ho fun _ _ => rfl]
    exact .inl asks.kind.symm
  | swapped asks =>
    obtain rfl | ho := List.mem_cons.1 ho
    · exact .inl asks.kind.symm
    · obtain ⟨x, -, rfl⟩ := List.mem_map.1 ho
      exact .inl asks.kind.symm
  | moved => cases ho
  | resized asks =>
    rw [List.mem_singleton.1 ho]
    split <;> exact .inl asks.kind.symm

end Game

end TileRace
