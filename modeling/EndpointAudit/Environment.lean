namespace EndpointAudit

abbrev Environment := List (String × String)

end EndpointAudit
