import TileRace.Proofs.Query.Parameters
import TileRace.Proofs.Server.Registration
import TileRace.Proofs.Text.Fields
import TileRace.Upgrade

namespace TileRace

namespace Upgrade

open Query Text

def Asks (target query : List Char) : Prop :=
  ∃ path fragment, target = path ++ '?' :: query ++ fragment ∧ '?' ∉ path ∧
    '#' ∉ path ++ query ∧ (fragment = [] ∨ ∃ rest, fragment = '#' :: rest)

/-- The first value for a name in a target unescapes to the bytes of a text. -/
def Names (target name : String) : Prop :=
  ∃ query value, Asks target.toList query ∧ First query "name".toList value ∧
    Unescapes (utf8 value) (utf8 name.toList) ∧ name ≠ ""

/-- Requests, each with the name that it gives, and the answers to them. -/
abbrev Log := List (Option String × Answer)

def Answer.isAdmitted : Answer → Bool
  | .admitted _ => true
  | .badRequest | .refused _ => false

def opened (log : Log) : Nat := log.countP (·.2.isAdmitted)

def openedFor (name : String) (log : Log) : Nat :=
  log.countP fun e => e.1 = some name ∧ e.2.isAdmitted

inductive Reply (sockets each : UInt64) (log : Log) : Option String → Answer → Prop where
  | nameless : Reply sockets each log none .badRequest
  | blank {s : String} (blanks : ∀ c ∈ s.toList, isBlank c) :
    Reply sockets each log (some s) (.refused .missingPlayerName)
  | full {s : String} (named : ∃ c ∈ s.toList, ¬ isBlank c) (full : sockets.toNat ≤ opened log) :
    Reply sockets each log (some s) (.refused (.tooManySockets sockets))
  | many {s : String} (named : ∃ c ∈ s.toList, ¬ isBlank c) (room : opened log < sockets.toNat)
    (many : each.toNat ≤ openedFor s log) :
    Reply sockets each log (some s) (.refused (.tooManyPlayerSockets s each))
  | admitted {s : String} (named : ∃ c ∈ s.toList, ¬ isBlank c)
    (room : opened log < sockets.toNat) (few : openedFor s log < each.toNat) :
    Reply sockets each log (some s) (.admitted (opened log + 1))

/-- A lobby that has answered the requests of the log, and done nothing else. -/
structure Answered (sockets each : UInt64) (log : Log) (l : Lobby) : Prop where
  maxSockets : l.maxSockets = sockets
  maxPlayerSockets : l.maxPlayerSockets = each
  last : l.lastSocket = opened log
  size : l.guests.size = opened log
  named : ∀ name, l.guestsNamed name = openedFor name log
  unused : ∀ k, l.lastSocket < k → l.guests.get? k = none

variable {target name : String} {sockets each : UInt64} {log : Log} {l l' : Lobby}

theorem Reply.admitted_iff {a : Answer} (h : Reply sockets each log (some name) a) :
    (∃ id, a = .admitted id) ↔ (∃ c ∈ name.toList, ¬ isBlank c) ∧ opened log < sockets.toNat ∧
      openedFor name log < each.toNat := by
  cases h with
  | blank blanks =>
    apply iff_of_false nofun
    rintro ⟨⟨c, hc, hnot⟩, -⟩
    exact hnot (blanks c hc)
  | full _ full => exact iff_of_false nofun fun h => Nat.not_lt.mpr full h.2.1
  | many _ _ many => exact iff_of_false nofun fun h => Nat.not_lt.mpr many h.2.2
  | admitted named room few => exact iff_of_true ⟨_, rfl⟩ ⟨named, room, few⟩

theorem dropWhile_ne_eq_cons {c d : Char} {cs rest : List Char} :
    cs.dropWhile (· ≠ c) = d :: rest ↔ d = c ∧ ∃ before, cs = before ++ c :: rest ∧ c ∉ before := by
  constructor
  · intro h
    have hhead := List.head?_dropWhile_not (· ≠ c) cs
    rw [h] at hhead
    obtain rfl : d = c := by simpa using hhead
    refine ⟨rfl, cs.takeWhile (· ≠ d), ?_, ?_⟩
    · rw [← h, List.takeWhile_append_dropWhile]
    · intro hmem
      simpa using List.all_eq_true.mp List.all_takeWhile d hmem
  · rintro ⟨rfl, before, rfl, hbefore⟩
    rw [List.dropWhile_append_of_pos]
    · simp
    · intro c hc
      simpa using ne_of_mem_of_not_mem hc hbefore

theorem takeWhile_ne_eq {c : Char} {cs found : List Char} : cs.takeWhile (· ≠ c) = found ↔
    ∃ after, cs = found ++ after ∧ c ∉ found ∧ (after = [] ∨ ∃ rest, after = c :: rest) := by
  constructor
  · rintro rfl
    refine ⟨cs.dropWhile (· ≠ c), ?_, ?_, ?_⟩
    · rw [List.takeWhile_append_dropWhile]
    · intro hmem
      simpa using List.all_eq_true.mp List.all_takeWhile c hmem
    · cases hdrop : cs.dropWhile (· ≠ c) with
      | nil => exact .inl rfl
      | cons d rest =>
        obtain ⟨rfl, -⟩ := dropWhile_ne_eq_cons.mp hdrop
        exact .inr ⟨rest, rfl⟩
  · rintro ⟨after, rfl, hfound, hafter⟩
    rw [List.takeWhile_append_of_pos]
    · rcases hafter with rfl | ⟨rest, rfl⟩ <;> simp
    · intro d hd
      simpa using ne_of_mem_of_not_mem hd hfound

theorem queryOf_eq_some {query : List Char} :
    queryOf? target = some (String.ofList query) ↔ Asks target.toList query := by
  have hdrop : queryOf? target = some (String.ofList query) ↔
      (target.toList.takeWhile (· ≠ '#')).dropWhile (· ≠ '?') = '?' :: query := by
    rw [queryOf?]
    split
    case h_1 h =>
      rw [h]
      exact iff_of_false nofun nofun
    case h_2 c rest h =>
      obtain ⟨rfl, -⟩ := dropWhile_ne_eq_cons.mp h
      rw [h, Option.some_inj, String.ofList_inj, List.cons.injEq]
      simp
  rw [hdrop, dropWhile_ne_eq_cons, Asks]
  simp only [true_and, takeWhile_ne_eq]
  constructor
  · rintro ⟨path, ⟨fragment, htarget, hhash, hfragment⟩, hpath⟩
    refine ⟨path, fragment, htarget, hpath, ?_, hfragment⟩
    simpa using hhash
  · rintro ⟨path, fragment, htarget, hpath, hhash, hfragment⟩
    refine ⟨path, ⟨fragment, htarget, ?_, hfragment⟩, hpath⟩
    simpa using hhash

theorem nameOf_eq_some : nameOf? target = some name ↔ Names target name := by
  have hand : '&' ∉ "name".toList := by decide
  have hkey : '=' ∉ "name".toList := by decide
  constructor
  · intro h
    obtain ⟨query, hquery, hname⟩ := Option.bind_eq_some_iff.mp h
    obtain ⟨value, hvalue, -⟩ := Option.bind_eq_some_iff.mp hname
    have hfirst := (lookup_iff_first hand hkey).mp hvalue
    obtain ⟨hne, hbytes⟩ := (parameter_eq_some hand hkey hfirst).mp hname
    rw [← String.ofList_toList (s := query)] at hquery
    exact ⟨query.toList, value, queryOf_eq_some.mp hquery, hfirst,
      hbytes ▸ unescapes_bytes value, hne⟩
  · rintro ⟨query, value, hquery, hfirst, hbytes, hne⟩
    rw [← String.toList_ofList (l := query)] at hfirst
    apply Option.bind_eq_some_iff.mpr
    exact ⟨_, queryOf_eq_some.mpr hquery, (parameter_eq_some hand hkey hfirst).mpr
      ⟨hne, (unescapes_bytes value).unique hbytes⟩⟩

theorem isNamed_iff : Lobby.isNamed name ↔ ∃ c ∈ name.toList, ¬ isBlank c := by
  rw [Lobby.isNamed, decide_eq_true_iff, ne_eq, trim_eq_nil]
  push Not
  rfl

theorem opened_append (log : Log) (e : Option String × Answer) :
    opened (log ++ [e]) = opened log + if e.2.isAdmitted then 1 else 0 := by
  rw [opened, List.countP_append, List.countP_singleton]
  rfl

theorem openedFor_append (name : String) (log : Log) (e : Option String × Answer) :
    openedFor name (log ++ [e]) =
      openedFor name log + if e.1 = some name ∧ e.2.isAdmitted then 1 else 0 := by
  rw [openedFor, List.countP_append, List.countP_singleton]
  simp [openedFor]

theorem Answered.refuse (h : Answered sockets each log l) {n : Option String} {a : Answer}
    (ha : a.isAdmitted = false) : Answered sockets each (log ++ [(n, a)]) l := by
  have hopened : opened (log ++ [(n, a)]) = opened log := by simp [opened_append, ha]
  refine ⟨h.maxSockets, h.maxPlayerSockets, ?_, ?_, ?_, h.unused⟩
  · rw [h.last, hopened]
  · rw [h.size, hopened]
  · intro name
    rw [h.named, openedFor_append]
    simp [ha]

theorem Answered.admit (h : Answered sockets each log l) {id : SocketId} {ds : List Duty}
    (hok : l.enroll name = .ok (id, l', ds)) :
    id = opened log + 1 ∧ Answered sockets each (log ++ [(some name, .admitted id)]) l' := by
  obtain ⟨rfl, -, rfl⟩ := Lobby.enroll_eq_ok hok
  have hfree : l.guests.get? (l.lastSocket + 1) = none := h.unused _ (Nat.lt_succ_self _)
  have hvalues := l.guests.values_insert_perm (l.lastSocket + 1) { name }
  rw [Table.erase_of_get?_eq_none hfree] at hvalues
  have hopened : opened (log ++ [(some name, .admitted (l.lastSocket + 1))]) = opened log + 1 := by
    simp [opened_append, Answer.isAdmitted]
  refine ⟨congrArg (· + 1) h.last, h.maxSockets, h.maxPlayerSockets, ?_, ?_, ?_, ?_⟩
  · rw [hopened, ← h.last]
  · rw [hopened, ← h.size, ← Table.length_values, ← Table.length_values]
    exact hvalues.length_eq
  · intro other
    have hcount := (hvalues.filter (·.name = other)).length_eq
    rw [openedFor_append, ← h.named]
    by_cases hname : name = other
    · simpa [Lobby.guestsNamed, Answer.isAdmitted, hname] using hcount
    · simpa [Lobby.guestsNamed, Answer.isAdmitted, hname] using hcount
  · intro k hk
    rw [Table.get?_insert, if_neg (Nat.ne_of_gt hk)]
    exact h.unused k (Nat.lt_of_succ_lt hk)

theorem Answered.turnedAway (h : Answered sockets each log l)
    (hnamed : ∃ c ∈ name.toList, ¬ isBlank c)
    {e : LobbyError} (he : l.enroll name = .error e) :
    Reply sockets each log (some name) (.refused e) := by
  have hlimits := Lobby.enroll_error he
  rw [Lobby.checkLimits, h.size, h.named, h.maxSockets, h.maxPlayerSockets] at hlimits
  split at hlimits
  case isTrue hfull =>
    obtain rfl := Except.error.inj hlimits
    exact .full hnamed hfull
  case isFalse hroom =>
    split at hlimits
    case isTrue hmany =>
      obtain rfl := Except.error.inj hlimits
      exact .many hnamed (Nat.not_le.mp hroom) hmany
    case isFalse => cases hlimits

theorem Answered.request (h : Answered sockets each log l) (target : String) :
    Reply sockets each log (nameOf? target) (request l target).1 ∧
      Answered sockets each (log ++ [(nameOf? target, (request l target).1)])
        (request l target).2 := by
  rw [Upgrade.request]
  split
  case h_1 hnone => exact ⟨hnone ▸ .nameless, h.refuse rfl⟩
  case h_2 name hname =>
    rw [hname]
    split
    case isTrue hblank =>
      refine ⟨.blank ?_, h.refuse rfl⟩
      have hnot : ¬ ∃ c ∈ name.toList, ¬ isBlank c := by
        rw [← isNamed_iff]
        simpa using hblank
      simpa using hnot
    case isFalse hnamed =>
      have hnamed' : ∃ c ∈ name.toList, ¬ isBlank c := isNamed_iff.mp (by simpa using hnamed)
      split
      case h_1 id l' ds hok =>
        obtain ⟨rfl, hnext⟩ := h.admit hok
        have hlimits := Lobby.checkLimits_eq_ok.mp (Lobby.enroll_limits hok)
        rw [h.size, h.named, h.maxSockets, h.maxPlayerSockets] at hlimits
        exact ⟨.admitted hnamed' hlimits.1 hlimits.2, hnext⟩
      case h_2 e he => exact ⟨h.turnedAway hnamed' he, h.refuse rfl⟩

theorem Answered.requests (h : Answered sockets each log l) (targets : List String)
    {before after : Log} {n : Option String} {a : Answer}
    (hsplit : (targets.map nameOf?).zip (requests l targets) = before ++ (n, a) :: after) :
    Reply sockets each (log ++ before) n a := by
  induction targets generalizing log l before with
  | nil => simp at hsplit
  | cons target targets ih =>
    obtain ⟨hreply, hnext⟩ := h.request target
    rw [Upgrade.requests, List.map_cons, List.zip_cons_cons] at hsplit
    cases before with
    | nil =>
      obtain ⟨hhead, -⟩ := List.cons.inj hsplit
      cases hhead
      simpa using hreply
    | cons e before =>
      obtain ⟨rfl, htail⟩ := List.cons.inj hsplit
      simpa using ih hnext htail

theorem length_requests (l : Lobby) (targets : List String) :
    (requests l targets).length = targets.length := by
  induction targets generalizing l with
  | nil => rfl
  | cons target targets ih => exact congrArg (· + 1) (ih _)

theorem answered_nil (sockets each : UInt64) :
    Answered sockets each [] { maxSockets := sockets, maxPlayerSockets := each } where
  maxSockets := rfl
  maxPlayerSockets := rfl
  last := rfl
  size := rfl
  named _ := rfl
  unused _ _ := rfl

/-- The requests that give no name are bad. Of the others each opens a connection exactly when its
name has more than blanks and both limits leave room, however the names are written. -/
theorem answers_by_name (sockets each : UInt64) (targets : List String) :
    ∃ names : List (Option String),
      List.Forall₂ (fun target n => ∀ name, n = some name ↔ Names target name) targets names ∧
      ∃ answers, requests { maxSockets := sockets, maxPlayerSockets := each } targets = answers ∧
        answers.length = targets.length ∧
        ∀ before n a after, names.zip answers = before ++ (n, a) :: after →
          (a = .badRequest ↔ n = none) ∧
          (∀ name, n = some name → ((∃ id, a = .admitted id) ↔
            (∃ c ∈ name.toList, ¬ isBlank c) ∧ opened before < sockets.toNat ∧
              openedFor name before < each.toNat)) ∧
          ∀ id, a = .admitted id → id = opened before + 1 := by
  refine ⟨targets.map nameOf?, ?_, _, rfl, length_requests _ _, ?_⟩
  · rw [List.forall₂_map_right_iff]
    exact List.forall₂_same.mpr fun target _ name => nameOf_eq_some
  · intro before n a after hsplit
    have hreply := (answered_nil sockets each).requests targets hsplit
    rw [List.nil_append] at hreply
    refine ⟨?_, ?_, ?_⟩
    · cases hreply <;> simp
    · rintro name rfl
      exact hreply.admitted_iff
    · rintro id rfl
      cases hreply
      rfl

theorem answers_by_name_escaped :
    ∃ names answers, List.Forall₂ (fun target n => ∀ name, n = some name ↔ Names target name)
      ["/?name=%41da", "/?name=Ada#x", "/?x&name=A%64a"] names ∧
      names = [some "Ada", some "Ada", some "Ada"] ∧
      requests { maxSockets := 4, maxPlayerSockets := 2 }
        ["/?name=%41da", "/?name=Ada#x", "/?x&name=A%64a"] = answers ∧
      answers = [.admitted 1, .admitted 2, .refused (.tooManyPlayerSockets "Ada" 2)] ∧
      ((∃ id, Answer.refused (.tooManyPlayerSockets "Ada" 2) = .admitted id) ↔
        (∃ c ∈ "Ada".toList, ¬ isBlank c) ∧ 2 < (4 : UInt64).toNat ∧ 2 < (2 : UInt64).toNat) := by
  obtain ⟨names, hnames, answers, hanswers, -, h⟩ :=
    answers_by_name 4 2 ["/?name=%41da", "/?name=Ada#x", "/?x&name=A%64a"]
  have hname : names = [some "Ada", some "Ada", some "Ada"] := by
    rcases hnames with _ | ⟨h₁, _ | ⟨h₂, _ | ⟨h₃, ⟨⟩⟩⟩⟩
    rw [(h₁ "Ada").mpr (nameOf_eq_some.mp (by decide +kernel)),
      (h₂ "Ada").mpr (nameOf_eq_some.mp (by decide +kernel)),
      (h₃ "Ada").mpr (nameOf_eq_some.mp (by decide +kernel))]
  have hanswer : answers = [.admitted 1, .admitted 2, .refused (.tooManyPlayerSockets "Ada" 2)] :=
    hanswers.symm.trans (by decide +kernel)
  refine ⟨names, answers, hnames, hname, hanswers, hanswer, ?_⟩
  subst hname
  subst hanswer
  exact (h [(some "Ada", .admitted 1), (some "Ada", .admitted 2)] _ _ [] rfl).2.1 "Ada" rfl

end Upgrade

end TileRace
