import SambaShares.Document.Basic
/-!
The configuration that stands in for a file that does not exist yet: the sections that a new
installation of the file server has.
-/

namespace SambaShares.Document

def builtinLines : List Text :=
  ["#======================= Global Settings =======================",
    "",
    "[global]",
    "   workgroup = WORKGROUP",
    "   server role = standalone server",
    "   log file = /var/log/samba/log.%m",
    "   max log size = 1000",
    "   logging = file",
    "   obey pam restrictions = yes",
    "   unix password sync = yes",
    "   pam password change = yes",
    "   map to guest = never",
    "   usershare allow guests = yes",
    "",
    "#======================= Share Definitions =======================",
    "",
    "[homes]",
    "   comment = Home Directories",
    "   browseable = no",
    "   read only = yes",
    "   create mask = 0700",
    "   directory mask = 0700",
    "   valid users = %S",
    "",
    "[printers]",
    "   comment = All Printers",
    "   browseable = no",
    "   path = /var/tmp",
    "   printable = yes",
    "   guest ok = no",
    "   read only = yes",
    "   create mask = 0700",
    "",
    "[print$]",
    "   comment = Printer Drivers",
    "   path = /var/lib/samba/printers",
    "   browseable = yes",
    "   read only = yes",
    "   guest ok = no"].map String.toList

def builtinText : Text := Text.ofLines builtinLines ++ ['\n']

def builtin : Document := parse builtinText

end SambaShares.Document
