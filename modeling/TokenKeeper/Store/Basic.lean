import TokenKeeper.Program

/-!
# Token stores

A token store keeps one entry for each caller key. Loading gives the live entry of a key or fails;
saving replaces it, and keeps the credentials stored before when none are given. Here are the stores
that keep their entries in memory: `memory`, and two for trials, of which `lasting` lets nothing
expire and `readOnly` takes nothing.
-/
namespace TokenKeeper

structure TokenStore where
  load : String → Program StoredEntry
  save : String → Tokens → Option Credentials → Instant → Program Unit

namespace TokenStore

def memory : TokenStore where
  load key := do Program.ofExcept (← Program.perform (.recall key))
  save key tokens credentials expiresAt :=
    Program.perform (.keep key tokens credentials expiresAt)

def lasting : TokenStore where
  load key := do
    match ← Program.perform (.recallAny key) with
    | some entry => return entry
    | none => .fail (.absent key)
  save key tokens credentials expiresAt :=
    Program.perform (.keep key tokens credentials expiresAt)

def readOnly : TokenStore where
  load key := .fail (.absent key)
  save _ _ _ _ := .fail .readOnly

end TokenStore
end TokenKeeper
