import TokenKeeper.Decorator
import TokenKeeper.Proofs.Config.Validity
import TokenKeeper.Proofs.Host

/-!
# Which hosts a loaded configuration protects

The host of a valid configuration is not empty and has no slash in it. A client protects it in
whatever case it is written and with any dots at its end, as long as the configuration names it
without a dot at the end. One with such a dot is as valid, but then no host at all is protected.
-/
namespace TokenKeeper

open Host (SameHost SameText matchesHost)

namespace Config

variable {env : Environment} {disk : Disk} {path : String} {c : Config}

/-- The same configuration with a dot at the end of its host. -/
def dotted (c : Config) : Config :=
  { c with client := { c.client with apiHost := c.client.apiHost ++ "." } }

theorem isBareHost_dotted {host : String} (h : isBareHost host = true) :
    isBareHost (host ++ ".") = true := by
  obtain ⟨-, hslash⟩ := isBareHost_iff.mp h
  refine isBareHost_iff.mpr ⟨by simp, ?_⟩
  rw [String.toList_append, List.mem_append]
  exact fun hmem => hmem.elim hslash (by decide)

theorem fault?_dotted (h : c.fault? = none) : c.dotted.fault? = none := by
  obtain ⟨hclient, hstore⟩ := fault?_eq_none_iff.mp h
  obtain ⟨hid, hkey, hendpoint, hhost, htimeout⟩ := clientFault?_eq_none_iff.mp hclient
  exact fault?_eq_none_iff.mpr ⟨clientFault?_eq_none_iff.mpr
    ⟨hid, hkey, hendpoint, isBareHost_dotted hhost, htimeout⟩, hstore⟩

theorem getLast?_dotted (c : Config) : c.dotted.client.apiHost.toList.getLast? = some '.' := by
  change (c.client.apiHost ++ ".").toList.getLast? = some '.'
  rw [String.toList_append]
  exact List.getLast?_concat

theorem protects_of_dot (hdot : c.client.apiHost.toList.getLast? = some '.') (store : TokenStore)
    (host : Option String) : (c.buildClient store).protects host = false := by
  cases host with
  | none => rfl
  | some host => exact Host.not_matchesHost_of_dot hdot host

/-- Which hosts the client of a loaded configuration protects: its own if no dot is at the end, and
in whatever way it is written. With a dot there, which no check refuses, it protects none. -/
theorem protection_of_load (h : load env disk path = .ok c) (store : TokenStore) :
    c.client.apiHost ≠ "" ∧ '/' ∉ c.client.apiHost.toList ∧
    (matchesHost c.client.apiHost c.client.apiHost = true ↔
      c.client.apiHost.toList.getLast? ≠ some '.') ∧
    (∀ host other api, SameHost host.toList other.toList →
      SameText c.client.apiHost.toList api.toList →
      matchesHost other api = matchesHost host c.client.apiHost) ∧
    (c.client.apiHost.toList.getLast? = some '.' →
      ∀ host, (c.buildClient store).protects host = false) ∧
    c.dotted.fault? = none ∧ ∀ host, (c.dotted.buildClient store).protects host = false := by
  have hvalid := fault?_of_load h
  obtain ⟨-, -, -, hhost, -⟩ := clientFault?_eq_none_iff.mp (fault?_eq_none_iff.mp hvalid).1
  obtain ⟨hne, hslash⟩ := isBareHost_iff.mp hhost
  exact ⟨hne, hslash, Host.matchesHost_self_iff _, fun _ _ _ => Host.matchesHost_congr,
    fun hdot => protects_of_dot hdot store, fault?_dotted hvalid,
    protects_of_dot (getLast?_dotted c) store⟩

end Config

/-! ### A configuration with a dot at the end of its host -/

namespace Dotted

def text (host : String) : String :=
  "[oauth]\nclient_id = \"c\"\napi_host = \"" ++ host ++ "\"\n"

def disk (host : String) : Disk :=
  Disk.ofFiles [("config.toml", .file (Utf8.encode (text host)) false)]

def config (host : String) : Config where
  client :=
    { clientId := "c", clientSecret := none, clientSecretFile := none,
      defaultCallerKey := "default", tokenEndpoint := defaultEndpoint, apiHost := host,
      timeout := defaultTimeout, refreshSkew := Config.defaultRefreshSkew,
      refreshMode := .independent, persistPolicy := .bestEffort }
  store := .default

theorem load_bare :
    Config.load [] (disk "api.example") "config.toml" = .ok (config "api.example") := by
  decide +kernel

theorem own_host_protected :
    Config.load [] (disk "api.example") "config.toml" = .ok (config "api.example") ∧
    matchesHost "api.example" "api.example" = true ∧
    matchesHost "API.example." "api.EXAMPLE" = true := by
  obtain ⟨-, -, hself, hsame, -⟩ := Config.protection_of_load load_bare .memory
  have hmatch : matchesHost "api.example" "api.example" = true := hself.mpr (by decide)
  have hhost : SameHost "api.example".toList "API.example.".toList :=
    ⟨"api.example".toList, "API.example".toList, 0, 1, by decide, by decide,
      Host.sameText_iff.mpr (by decide)⟩
  have hname : SameText "api.example".toList "api.EXAMPLE".toList :=
    Host.sameText_iff.mpr (by decide)
  have hother := hsame "api.example" "API.example." "api.EXAMPLE" hhost hname
  exact ⟨load_bare, hmatch, hother.trans hmatch⟩

/-- A configuration is loaded whose own host it does not protect. -/
theorem own_host_unprotected :
    Config.load [] (disk "api.example.") "config.toml" = .ok (config "api.example.") ∧
    matchesHost "api.example." "api.example." = false ∧
    matchesHost "api.example." "api.example" = true := by
  decide +kernel

end Dotted
end TokenKeeper
