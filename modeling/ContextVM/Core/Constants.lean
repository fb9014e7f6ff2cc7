/-!
# Protocol constants

The event kinds of `core/constants.rs`.
-/

namespace ContextVM

/-- ContextVM messages (ephemeral events). -/
def ctxvmMessagesKind : UInt16 := 25910

/-- Encrypted messages (NIP-59 gift wraps). -/
def giftWrapKind : UInt16 := 1059

/-- Maximum size of a message in bytes (1MB). -/
def maxMessageSize : Nat := 1024 * 1024

def serverAnnouncementKind : UInt16 := 11316

def toolsListKind : UInt16 := 11317

def resourcesListKind : UInt16 := 11318

def resourcetemplatesListKind : UInt16 := 11319

def promptsListKind : UInt16 := 11320

/-- Kinds that are never encrypted (public announcements). -/
def unencryptedKinds : List UInt16 :=
  [serverAnnouncementKind, toolsListKind, resourcesListKind, resourcetemplatesListKind,
    promptsListKind]

end ContextVM
