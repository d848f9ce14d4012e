import Rps.Base.Table
import Rps.Controller.Policy

/-! The proxy accounts of the controller's database.

A table is the rows together with its two constraints: ids are the primary key,
and a username is taken once per proxy kind. A statement that would break a
constraint fails and changes nothing. -/
namespace Rps.Controller
open Base

inductive ProxyKind where
  | http
  | socks5
  deriving DecidableEq

/-- `u64_to_i64`: the value a `u64` is stored as. -/
def u64ToI64 (value : Nat) : Nat := min value (2 ^ 63 - 1)

structure DbProxyAccount where
  id : String
  kind : ProxyKind
  clientId : String
  username : String
  password : String
  enabled : Bool := true
  expiresAt : Option Int := none
  trafficLimitBytes : Option Nat := none
  rxBytes : Nat := 0
  txBytes : Nat := 0
  disabledReason : Option String := none
  deriving DecidableEq

/-- The columns of the `unique(kind, username)` constraint. -/
def DbProxyAccount.name (a : DbProxyAccount) : ProxyKind × String := (a.kind, a.username)

structure ProxyAccounts where
  rows : List DbProxyAccount
  ids : (rows.map DbProxyAccount.id).Nodup
  names : (rows.map DbProxyAccount.name).Nodup

structure UpdateProxyAccount where
  kind : ProxyKind
  clientId : String
  username : String
  password : String
  enabled : Bool
  expiresAt : Option Int
  trafficLimitBytes : Option Nat

/-- The row `update_proxy_account` writes over `a`. -/
def UpdateProxyAccount.row (input : UpdateProxyAccount) (a : DbProxyAccount) : DbProxyAccount :=
  {a with
    kind := input.kind
    clientId := input.clientId
    username := input.username
    password := input.password
    enabled := input.enabled
    expiresAt := input.expiresAt
    trafficLimitBytes := input.trafficLimitBytes.map u64ToI64
    disabledReason := if input.enabled then none else some "manual"}

namespace ProxyAccounts

/-- `update .. set .. where id = ?`, as rows. -/
def setRows (f : DbProxyAccount → DbProxyAccount) (id : String) (rows : List DbProxyAccount) :
    List DbProxyAccount :=
  rows.map fun a => if a.id = id then f a else a

/-- Columns that the statement does not set stay as they are. -/
theorem map_setRows {β : Type} {f : DbProxyAccount → DbProxyAccount} {g : DbProxyAccount → β}
    (id : String) (rows : List DbProxyAccount) (hfg : ∀ a, g (f a) = g a) :
    (setRows f id rows).map g = rows.map g := by
  rw [setRows, List.map_map]
  refine List.map_congr_left fun a _ => ?_
  simp only [Function.comp_apply]
  split
  · exact hfg a
  · rfl

def disableProxyAccount (t : ProxyAccounts) (id reason : String) : ProxyAccounts where
  rows := setRows (fun a => {a with enabled := false, disabledReason := some reason}) id t.rows
  ids := by
    rw [map_setRows]
    · exact t.ids
    · exact fun _ => rfl
  names := by
    rw [map_setRows]
    · exact t.names
    · exact fun _ => rfl

def deleteProxyAccount (t : ProxyAccounts) (id : String) : ProxyAccounts × Bool :=
  ({rows := t.rows.filter fun a => a.id ≠ id
    ids := t.ids.sublist (List.filter_sublist.map _)
    names := t.names.sublist (List.filter_sublist.map _)},
   t.rows.any fun a => a.id = id)

/-- The ids after an update, which does not set them. -/
theorem nodup_ids_update (t : ProxyAccounts) (id : String) (input : UpdateProxyAccount) :
    ((setRows input.row id t.rows).map DbProxyAccount.id).Nodup := by
  rw [map_setRows]
  · exact t.ids
  · exact fun _ => rfl

def getProxyAccount (t : ProxyAccounts) (id : String) : Option DbProxyAccount :=
  t.rows.find? fun a => a.id = id

/-- `Except` for a username that is taken, `Option` for an id that is not there. -/
def updateProxyAccount (t : ProxyAccounts) (id : String) (input : UpdateProxyAccount) :
    Except String (Option (ProxyAccounts × DbProxyAccount)) :=
  match t.getProxyAccount id with
  | none => .ok none
  | some a =>
    if h : ((setRows input.row id t.rows).map DbProxyAccount.name).Nodup then
      .ok (some (⟨setRows input.row id t.rows, t.nodup_ids_update id input, h⟩, input.row a))
    else .error "UNIQUE constraint failed: proxy_accounts.kind, proxy_accounts.username"

def hasEnabledProxyAccounts (t : ProxyAccounts) (kind : ProxyKind) : Bool :=
  0 < t.rows.countP fun a => a.kind = kind && a.enabled

def findEnabledProxyAccount (t : ProxyAccounts) (kind : ProxyKind) (username password : String) :
    Option DbProxyAccount :=
  t.rows.find? fun a => a.kind = kind && a.username = username && a.password = password && a.enabled

/-- Two rows under one name are one row. -/
theorem eq_of_name {t : ProxyAccounts} {a b : DbProxyAccount} (ha : a ∈ t.rows) (hb : b ∈ t.rows)
    (h : a.name = b.name) : a = b :=
  List.inj_on_of_nodup_map t.names ha hb h

/-- The query returns the one row that matches, if there is one. -/
theorem findEnabledProxyAccount_eq_some {t : ProxyAccounts} {kind : ProxyKind} {username password : String}
    {a : DbProxyAccount} : t.findEnabledProxyAccount kind username password = some a ↔
      a ∈ t.rows ∧ a.kind = kind ∧ a.username = username ∧ a.password = password ∧ a.enabled = true := by
  unfold findEnabledProxyAccount
  constructor
  · intro h
    have hp := List.find?_some h
    simp only [Bool.and_eq_true, decide_eq_true_eq] at hp
    exact ⟨List.mem_of_find?_eq_some h, hp.1.1.1, hp.1.1.2, hp.1.2, hp.2⟩
  · rintro ⟨hmem, hkind, hname, hpass, hen⟩
    cases hf : t.rows.find? fun a => a.kind = kind && a.username = username && a.password = password && a.enabled with
    | none =>
      have := List.find?_eq_none.mp hf a hmem
      simp [hkind, hname, hpass, hen] at this
    | some b =>
      have hp := List.find?_some hf
      simp only [Bool.and_eq_true, decide_eq_true_eq] at hp
      have hab : b.name = a.name := by
        unfold DbProxyAccount.name
        rw [hp.1.1.1, hp.1.1.2, hkind, hname]
      rw [eq_of_name (List.mem_of_find?_eq_some hf) hmem hab]

theorem hasEnabledProxyAccounts_eq_true {t : ProxyAccounts} {kind : ProxyKind} :
    t.hasEnabledProxyAccounts kind = true ↔ ∃ a ∈ t.rows, a.kind = kind ∧ a.enabled = true := by
  simp [hasEnabledProxyAccounts, List.countP_pos_iff]

end ProxyAccounts

end Rps.Controller
